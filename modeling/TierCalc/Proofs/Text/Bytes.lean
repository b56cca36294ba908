import TierCalc.Text.Bytes

/-!
# Texts and their bytes

A text is told from others by its UTF-8 bytes. Bytes that are read one character each are found from the text
(`eq_of_ascii`), and are its encoding if all of them are below 128 (`ofString_ascii`).
-/

namespace TierCalc.Bytes

/-! ### The encoding of a text -/

theorem toList_loop (bs : ByteArray) (i : Nat) (r : List UInt8) :
    ByteArray.toList.loop bs i r = r.reverse ++ bs.data.toList.drop i := by
  fun_induction ByteArray.toList.loop bs i r with
  | case1 i r hlt ih =>
      have hi : i < bs.data.toList.length := by simpa using hlt
      have hget : bs.get! i = bs.data.toList[i] := by
        rw [Array.getElem_toList]
        exact getElem!_pos bs.data i (by simpa using hlt)
      rw [ih, List.drop_eq_getElem_cons hi, hget, List.reverse_cons, List.append_assoc, List.singleton_append]
  | case2 i r hge =>
      have hi : bs.data.toList.length ≤ i := by simpa using hge
      rw [List.drop_eq_nil_of_le hi, List.append_nil]

theorem ofString_eq (s : String) : ofString s = s.toByteArray.data.toList := by
  unfold ofString
  rw [ByteArray.toList, toList_loop]
  rfl

theorem ofString_inj {s t : String} : ofString s = ofString t ↔ s = t := by
  rw [ofString_eq, ofString_eq, ← String.toByteArray_inj, Array.toList_inj, ← ByteArray.ext_iff]

theorem ofString_append (s t : String) : ofString (s ++ t) = ofString s ++ ofString t := by
  rw [ofString_eq, ofString_eq, ofString_eq, String.toByteArray_append, ByteArray.data_append, Array.toList_append]

theorem length_ofString (s : String) : (ofString s).length = s.utf8ByteSize := by
  rw [ofString_eq]
  rfl

/-! ### One character for each byte -/

theorem toNat_char (b : UInt8) : (Char.ofNat b.toNat).toNat = b.toNat := by
  have hvalid : b.toNat.isValidChar := .inl (Nat.lt_trans b.toNat_lt (by decide))
  rw [Char.ofNat, dif_pos hvalid]
  exact UInt32.toNat_ofNatLT ..

@[simp] theorem toList_ascii (bs : Bytes) : (ascii bs).toList = bs.map fun b => Char.ofNat b.toNat := by
  simp [ascii]

theorem eq_of_ascii {bs : Bytes} {s : String} (h : ascii bs = s) : bs = s.toList.map fun c => UInt8.ofNat c.toNat := by
  rw [← h, toList_ascii, List.map_map]
  have hbyte : (fun c : Char => UInt8.ofNat c.toNat) ∘ (fun b : UInt8 => Char.ofNat b.toNat) = id := by
    funext b
    simp [toNat_char]
  rw [hbyte, List.map_id]

theorem ofString_ascii {bs : Bytes} (h : ∀ b ∈ bs, b.toNat < 128) : ofString (ascii bs) = bs := by
  have hchar {b : UInt8} (hb : b.toNat < 128) : String.utf8EncodeChar (Char.ofNat b.toNat) = [b] := by
    have hval : (Char.ofNat b.toNat).val.toNat = b.toNat := toNat_char b
    simp only [String.utf8EncodeChar, hval, if_pos (show b.toNat ≤ 127 by omega), UInt8.ofNat_toNat]
  have hflat : (bs.map fun b => Char.ofNat b.toNat).flatMap String.utf8EncodeChar = bs := by
    induction bs with
    | nil => rfl
    | cons b bs ih =>
        rw [List.map_cons, List.flatMap_cons, hchar (h b List.mem_cons_self),
          ih fun c hc => h c (List.mem_cons_of_mem b hc), List.singleton_append]
  rw [ofString_eq, ascii, String.toByteArray_ofList, List.utf8Encode, hflat, List.data_toByteArray]

theorem exists_ascii {s : String} (h : ∀ c ∈ s.toList, c.toNat < 128) :
    ∃ bs, (∀ b ∈ bs, b.toNat < 128) ∧ ascii bs = s := by
  have hbyte {c : Char} (hc : c ∈ s.toList) : (UInt8.ofNat c.toNat).toNat = c.toNat :=
    UInt8.toNat_ofNat_of_lt' (Nat.lt_trans (h c hc) (by decide))
  refine ⟨s.toList.map fun c => UInt8.ofNat c.toNat, ?_, ?_⟩
  · intro b hb
    obtain ⟨c, hc, rfl⟩ := List.mem_map.mp hb
    rw [hbyte hc]
    exact h c hc
  · rw [← String.toList_inj, toList_ascii, List.map_map]
    refine (List.map_congr_left fun c hc => ?_).trans (List.map_id _)
    rw [Function.comp_apply, hbyte hc, Char.ofNat_toNat]
    rfl

theorem length_ofString_of_ascii {s : String} (h : ∀ c ∈ s.toList, c.toNat < 128) : (ofString s).length = s.length := by
  obtain ⟨bs, hbs, rfl⟩ := exists_ascii h
  rw [ofString_ascii hbs, ← String.length_toList, toList_ascii, List.length_map]

theorem ofString_replicate {b : UInt8} (h : b.toNat < 128) (n : Nat) :
    ofString (String.ofList (List.replicate n (Char.ofNat b.toNat))) = List.replicate n b := by
  have hascii : ascii (List.replicate n b) = String.ofList (List.replicate n (Char.ofNat b.toNat)) := by
    simp [ascii]
  rw [← hascii]
  exact ofString_ascii fun c hc => (List.eq_of_mem_replicate hc) ▸ h

end TierCalc.Bytes
