import Mathlib.Data.List.TakeWhile
import LineScript.CommandLine
import LineScript.Proofs.Dialogue.Lines

namespace LineScript.CommandLine

section Encoding

variable {α β : Type} [DecidableEq α] [DecidableEq β]

theorem splitOn_append_of_notMem {feed : α} {front : List α} (h : feed ∉ front)
    (stream : List α) :
    (front ++ stream).splitOn feed = (stream.splitOn feed).modifyHead (front ++ ·) := by
  induction front with
  | nil =>
    rw [List.nil_append]
    cases stream.splitOn feed <;> rfl
  | cons c front ih =>
    rw [List.mem_cons, not_or] at h
    rw [List.cons_append, List.splitOn_cons_eq_if_modifyHead, if_neg (by simpa using Ne.symm h.1),
      ih h.2, List.modifyHead_modifyHead]
    rfl

/-- In an encoding, `unit` is all of what encodes `c` and no part of what encodes another. -/
structure StandsFor (encode : α → List β) (unit : β) (c : α) : Prop where
  encode_eq : encode c = [unit]
  eq_of_mem : ∀ {d}, unit ∈ encode d → d = c

variable {encode : α → List β} {feed returning : α} {feed' returning' : β}

theorem StandsFor.splitOn_flatMap (hf : StandsFor encode feed' feed) (stream : List α) :
    (stream.flatMap encode).splitOn feed' =
      (stream.splitOn feed).map fun piece => piece.flatMap encode := by
  induction stream with
  | nil => rfl
  | cons c stream ih =>
    rw [List.flatMap_cons, List.splitOn_cons_eq_if_modifyHead]
    by_cases hc : c = feed
    · rw [hc, hf.encode_eq, List.singleton_append, List.splitOn_cons_eq_if_modifyHead, ih]
      simp
    · have hm : feed' ∉ encode c := fun hm => hc (hf.eq_of_mem hm)
      rw [splitOn_append_of_notMem hm, ih, if_neg (by simpa using hc)]
      cases stream.splitOn feed <;> simp

theorem StandsFor.flatMap_dropLast (hr : StandsFor encode returning' returning)
    (hn : ∀ c, encode c ≠ []) (piece : List α) :
    (if (piece.flatMap encode).getLast? = some returning' then (piece.flatMap encode).dropLast
      else piece.flatMap encode) =
      (if piece.getLast? = some returning then piece.dropLast else piece).flatMap encode := by
  rcases List.eq_nil_or_concat piece with rfl | ⟨front, c, rfl⟩
  · simp
  by_cases hc : c = returning
  · simp [hc, hr.encode_eq]
  · have hl : (encode c).getLast? ≠ some returning' :=
      fun hl => hc (hr.eq_of_mem (List.mem_of_getLast? hl))
    obtain ⟨last, he⟩ := Option.ne_none_iff_exists'.mp (mt List.getLast?_eq_none_iff.mp (hn c))
    rw [he] at hl
    simp [hc, List.getLast?_append, he, hl]

theorem linesOf_flatMap (hf : StandsFor encode feed' feed)
    (hr : StandsFor encode returning' returning) (hn : ∀ c, encode c ≠ []) (stream : List α) :
    linesOf feed' returning' (stream.flatMap encode) =
      (linesOf feed returning stream).map fun line => line.flatMap encode := by
  obtain ⟨pieces, rest, hp⟩ := exists_splitOn_eq feed stream
  have hp' : (stream.flatMap encode).splitOn feed' =
      (pieces.map fun piece => piece.flatMap encode) ++ [rest.flatMap encode] := by
    rw [hf.splitOn_flatMap, hp, List.map_append, List.map_singleton]
  rw [linesOf_eq hp, linesOf_eq hp', List.map_append, List.map_map, List.map_map]
  congr 1
  · exact List.map_congr_left fun piece _ => hr.flatMap_dropLast hn piece
  · cases rest with
    | nil => rfl
    | cons c rest => simp [hn]

end Encoding

/-- Bytes below 128 stand for the characters with their numbers. -/
theorem toNat_of_mem_utf8EncodeChar {c : Char} {b : UInt8} (hm : b ∈ String.utf8EncodeChar c)
    (hb : b.toNat < 128) : c.toNat = b.toNat := by
  -- In longer encodings each byte is at least 128.
  have high {n : Nat} (hn : n < 256) (h : 128 ≤ n) : b ≠ UInt8.ofNat n := by
    rintro rfl
    rw [UInt8.toNat_ofNat', Nat.mod_eq_of_lt hn] at hb
    exact Nat.not_lt_of_le h hb
  rw [String.utf8EncodeChar] at hm
  split at hm
  case isTrue hc =>
    obtain rfl := List.mem_singleton.mp hm
    rw [UInt8.toNat_ofNat', Nat.mod_eq_of_lt (by omega)]
    rfl
  case isFalse =>
    split at hm
    · simp only [List.mem_cons, List.not_mem_nil, or_false] at hm
      obtain hm | hm := hm <;> exact absurd hm (high (by omega) (by omega))
    split at hm
    · simp only [List.mem_cons, List.not_mem_nil, or_false] at hm
      obtain hm | hm | hm := hm <;> exact absurd hm (high (by omega) (by omega))
    · simp only [List.mem_cons, List.not_mem_nil, or_false] at hm
      obtain hm | hm | hm | hm := hm <;> exact absurd hm (high (by omega) (by omega))

theorem standsFor_utf8EncodeChar {b : UInt8} {c : Char} (h : c.toNat = b.toNat)
    (hb : b.toNat < 128) : StandsFor String.utf8EncodeChar b c where
  encode_eq := by
    have hv : c.val.toNat = b.toNat := h
    rw [String.utf8EncodeChar, hv, if_pos (Nat.le_of_lt_succ hb), UInt8.ofNat_toNat]
  eq_of_mem {d} hm := by
    have hd := toNat_of_mem_utf8EncodeChar hm hb
    exact Char.toNat_inj.mp (hd.trans h.symm)

theorem toList_loop (bytes : ByteArray) (i : Nat) (front : List UInt8) :
    ByteArray.toList.loop bytes i front = front.reverse ++ bytes.data.toList.drop i := by
  fun_induction ByteArray.toList.loop bytes i front with
  | case1 i front hi ih =>
    have hl : i < bytes.data.toList.length := by simpa using hi
    rw [ih, List.drop_eq_getElem_cons hl]
    simp [ByteArray.get!, hi]
  | case2 i front hi =>
    rw [List.drop_eq_nil_of_le (by simpa using Nat.le_of_not_lt hi)]
    simp

theorem toList_utf8Encode (text : Text) :
    text.utf8Encode.toList = text.flatMap String.utf8EncodeChar := by
  rw [ByteArray.toList, toList_loop, List.utf8Encode, List.toList_data_toByteArray]
  rfl

theorem decode?_utf8Encode (text : Text) : decode? text.utf8Encode = some text := by
  have hv : text.utf8Encode.IsValidUTF8 := ByteArray.isValidUTF8_utf8Encode
  have hs : String.fromUTF8 text.utf8Encode hv = String.ofList text :=
    String.toByteArray_inj.mp (by simp [String.fromUTF8])
  rw [decode?, String.fromUTF8?, dif_pos hv, Option.map_some, hs, String.toList_ofList]

theorem readableLines_utf8Encode (text : Text) :
    readableLines text.utf8Encode = (scriptLines text, false) := by
  have hl : linesOf 0x0A 0x0D text.utf8Encode.toList =
      (scriptLines text).map fun line => line.flatMap String.utf8EncodeChar := by
    rw [toList_utf8Encode]
    exact linesOf_flatMap (standsFor_utf8EncodeChar rfl (by decide))
      (standsFor_utf8EncodeChar rfl (by decide)) (fun _ => String.utf8EncodeChar_ne_nil) text
  have hd (line : Text) : decode? ⟨(line.flatMap String.utf8EncodeChar).toArray⟩ = some line := by
    rw [← decode?_utf8Encode line, List.utf8Encode]
    exact congrArg decode? (ByteArray.ext List.data_toByteArray.symm)
  have hm : ((linesOf 0x0A 0x0D text.utf8Encode.toList).map fun line => decode? ⟨line.toArray⟩) =
      (scriptLines text).map some := by
    rw [hl, List.map_map]
    exact List.map_congr_left fun line _ => hd line
  have ht : ((scriptLines text).map some).takeWhile Option.isSome = (scriptLines text).map some :=
    List.takeWhile_eq_self_iff.mpr (by simp)
  simp [readableLines, hm, ht]

end LineScript.CommandLine
