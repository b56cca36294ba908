import TierCalc.Proofs.Text.Bytes
import TierCalc.Source.Lexer

/-!
# How tokens are spelled

`Spells` says which bytes spell a token of which kind, whatever stands around them. Of the prefixes of a source that
spell a token the lexer takes the longest (`munch_longest`), and it finds none only where there is none
(`munch_eq_none`).
-/

namespace TierCalc.Lexer

/-- The spellings of the tokens of each kind: digits, a letter with letters and digits after it, or the name of the
kind. The end of a source is not spelled. -/
inductive Spells : Token.Kind → Bytes → Prop where
  | int {ds : Bytes} (hne : ds ≠ []) (hds : ∀ d ∈ ds, isDigit d = true) : Spells .int ds
  | word {kind : Token.Kind} {b : UInt8} {bs : Bytes} (hb : isLetter b = true) (hbs : ∀ c ∈ bs, isWord c = true)
      (hkind : kind = .ofWord (Bytes.ascii (b :: bs))) : Spells kind (b :: bs)
  | sign {kind : Token.Kind} {bs : Bytes} (hkind : kind ∉ [.eof, .int, .ident, .cond])
      (hbs : Bytes.ascii bs = kind.name) : Spells kind bs

/-- Whether bytes spell a token of a kind, and none that are longer by some of the bytes after them spell any. -/
structure Longest (kind : Token.Kind) (bs after : Bytes) : Prop where
  spells : Spells kind bs
  longest : ∀ kind' more, more ≠ [] → more <+: after → ¬ Spells kind' (bs ++ more)

/-! ### The bytes of a spelling -/

section
variable {kind : Token.Kind} {b : UInt8} {bs rest : Bytes}

theorem isDigit_iff : isDigit b = true ↔ 48 ≤ b.toNat ∧ b.toNat ≤ 57 := by
  simp [isDigit, UInt8.le_iff_toNat_le]

theorem isLetter_iff :
    isLetter b = true ↔ 97 ≤ b.toNat ∧ b.toNat ≤ 122 ∨ 65 ≤ b.toNat ∧ b.toNat ≤ 90 ∨ b.toNat = 95 := by
  simp [isLetter, UInt8.le_iff_toNat_le, ← UInt8.toNat_inj, or_assoc]

theorem isWord_iff : isWord b = true ↔ isLetter b = true ∨ isDigit b = true := by
  simp [isWord]

theorem visible_of_mem_name {c : Char} (h : c ∈ kind.name.toList) : 32 < c.toNat ∧ c.toNat < 127 := by
  have hall : kind.name.toList.all (fun c => 32 < c.toNat ∧ c.toNat < 127) = true := by cases kind <;> rfl
  exact of_decide_eq_true (List.all_eq_true.mp hall c h)

theorem Spells.visible (h : Spells kind bs) (hb : b ∈ bs) : 32 < b.toNat ∧ b.toNat < 127 := by
  cases h with
  | int _ hds =>
      have hdigit := isDigit_iff.mp (hds b hb)
      omega
  | @word _ b₀ bs hb₀ hbs =>
      have hword : isLetter b = true ∨ isDigit b = true := by
        rcases List.mem_cons.mp hb with rfl | hb
        · exact .inl hb₀
        · exact isWord_iff.mp (hbs b hb)
      rw [isLetter_iff, isDigit_iff] at hword
      omega
  | sign _ hbs =>
      have hmem : Char.ofNat b.toNat ∈ kind.name.toList := by
        rw [← hbs, Bytes.toList_ascii]
        exact List.mem_map_of_mem hb
      rw [← Bytes.toNat_char b]
      exact visible_of_mem_name hmem

theorem Spells.ne_nil (h : Spells kind bs) : bs ≠ [] := by
  rintro rfl
  cases h with
  | int hne => exact hne rfl
  | sign _ hbs =>
      revert hbs
      cases kind <;> decide

theorem Spells.ne_eof (h : Spells kind bs) : kind ≠ .eof := by
  rintro rfl
  generalize heof : Token.Kind.eof = kind at h
  cases h with
  | int => cases heof
  | word _ _ hkind =>
      unfold Token.Kind.ofWord at hkind
      split at hkind <;> cases heof.trans hkind
  | sign hkind =>
      rw [← heof] at hkind
      simp at hkind

/-! ### Where a token starts with a letter or a digit -/

theorem munch_word (hb : isWord b = true) (rest : Bytes) :
    munch b rest =
      if isDigit b then some (.int, (rest.takeWhile isDigit).length)
      else if isLetter b then
        some (.ofWord (Bytes.ascii (b :: rest.takeWhile isWord)), (rest.takeWhile isWord).length)
      else none := by
  rw [isWord_iff, isLetter_iff, isDigit_iff] at hb
  unfold munch
  split
  case h_14 => rfl
  all_goals
    rename_i hchar
    have hnat := congrArg Char.toNat hchar
    simp only [Bytes.toNat_char, Char.reduceToNat] at hnat
    omega

theorem munch_digit (hb : isDigit b = true) (rest : Bytes) :
    munch b rest = some (.int, (rest.takeWhile isDigit).length) := by
  rw [munch_word (isWord_iff.mpr (.inr hb)), if_pos hb]

theorem munch_letter (hb : isLetter b = true) (rest : Bytes) :
    munch b rest =
      some (.ofWord (Bytes.ascii (b :: rest.takeWhile isWord)), (rest.takeWhile isWord).length) := by
  have hdigit : ¬ isDigit b = true := by
    rw [isLetter_iff] at hb
    rw [isDigit_iff]
    omega
  rw [munch_word (isWord_iff.mpr (.inl hb)), if_neg hdigit, if_pos hb]

/-! ### What is taken is a spelling -/

theorem take_takeWhile (p : UInt8 → Bool) (bs : Bytes) : bs.take (bs.takeWhile p).length = bs.takeWhile p :=
  (List.prefix_iff_eq_take.mp (List.takeWhile_prefix p)).symm

theorem mem_takeWhile {p : UInt8 → Bool} (h : b ∈ bs.takeWhile p) : p b = true :=
  List.all_eq_true.mp List.all_takeWhile b h

theorem oneOrTwo_spells {one two : Token.Kind} (hone : one ∉ [.eof, .int, .ident, .cond])
    (htwo : two ∉ [.eof, .int, .ident, .cond]) (hname : Bytes.ascii [b] = one.name)
    (hname' : Bytes.ascii [b, 61] = two.name) (rest : Bytes) :
    Spells (oneOrTwo one two rest).1 (b :: rest.take (oneOrTwo one two rest).2) := by
  unfold oneOrTwo
  split
  · rename_i hnext
    obtain ⟨rest, rfl⟩ := List.head?_eq_some_iff.mp hnext
    exact .sign htwo hname'
  · exact .sign hone hname

/-- The bytes that are taken spell a token. -/
theorem munch_spells {found : Token.Kind × Nat} (h : munch b rest = some found) :
    Spells found.1 (b :: rest.take found.2) := by
  unfold munch at h
  split at h
  case h_10 hb | h_11 hb | h_12 hb =>
    obtain rfl := Option.some.inj h
    exact oneOrTwo_spells (by decide) (by decide) (by rw [Bytes.ascii, List.map_singleton, hb]; rfl)
      (by rw [Bytes.ascii, List.map_cons, hb]; rfl) rest
  case h_13 hb =>
    split at h
    · rename_i hnext
      obtain ⟨rest, rfl⟩ := List.head?_eq_some_iff.mp hnext
      obtain rfl := Option.some.inj h
      exact .sign (by decide) (by rw [Bytes.ascii, List.map_cons, hb]; rfl)
    · cases h
  case h_14 =>
    split at h
    · rename_i hdigit
      obtain rfl := Option.some.inj h
      rw [take_takeWhile]
      exact .int (by simp) (List.forall_mem_cons.mpr ⟨hdigit, fun _ => mem_takeWhile⟩)
    · split at h
      · rename_i hletter
        obtain rfl := Option.some.inj h
        rw [take_takeWhile]
        exact .word hletter (fun _ => mem_takeWhile) rfl
      · cases h
  all_goals
    rename_i hb
    obtain rfl := Option.some.inj h
    exact .sign (by decide) (by rw [Bytes.ascii, List.take_zero, List.map_singleton, hb]; rfl)

theorem oneOrTwo_le (one two : Token.Kind) (rest : Bytes) : (oneOrTwo one two rest).2 ≤ rest.length := by
  unfold oneOrTwo
  split
  · rename_i hnext
    obtain ⟨rest, rfl⟩ := List.head?_eq_some_iff.mp hnext
    exact Nat.le_add_left 1 _
  · exact Nat.zero_le _

theorem munch_le {found : Token.Kind × Nat} (h : munch b rest = some found) : found.2 ≤ rest.length := by
  unfold munch at h
  split at h
  case h_10 | h_11 | h_12 =>
    obtain rfl := Option.some.inj h
    exact oneOrTwo_le _ _ rest
  case h_13 =>
    split at h
    · rename_i hnext
      obtain ⟨rest, rfl⟩ := List.head?_eq_some_iff.mp hnext
      obtain rfl := Option.some.inj h
      exact Nat.le_add_left 1 _
    · cases h
  case h_14 =>
    split at h
    · obtain rfl := Option.some.inj h
      exact (List.takeWhile_prefix _).length_le
    · split at h
      · obtain rfl := Option.some.inj h
        exact (List.takeWhile_prefix _).length_le
      · cases h
  all_goals
    obtain rfl := Option.some.inj h
    exact Nat.zero_le _

/-! ### Nothing longer is a spelling -/

theorem length_le_takeWhile {p : UInt8 → Bool} {more : Bytes} (hmore : ∀ c ∈ more, p c = true) (hrest : more <+: rest) :
    more.length ≤ (rest.takeWhile p).length := by
  obtain ⟨after, rfl⟩ := hrest
  rw [List.takeWhile_append_of_pos hmore, List.length_append]
  exact Nat.le_add_right _ _

/-- Where a token is spelled, one is found, and it is at least as long. -/
theorem munch_of_spells {more : Bytes} (h : Spells kind (b :: more)) (hrest : more <+: rest) :
    ∃ found, munch b rest = some found ∧ more.length ≤ found.2 := by
  generalize hbs : b :: more = bs at h
  cases h with
  | int _ hds =>
      subst hbs
      rw [List.forall_mem_cons] at hds
      exact ⟨_, munch_digit hds.1 rest, length_le_takeWhile hds.2 hrest⟩
  | word hb hwords =>
      cases hbs
      exact ⟨_, munch_letter hb rest, length_le_takeWhile hwords hrest⟩
  | sign hkind hname =>
      subst hbs
      have hbytes := Bytes.eq_of_ascii hname
      obtain ⟨after, rfl⟩ := hrest
      cases kind with
      | eof | int | ident | cond => simp at hkind
      | equal | notEqual | lessEqual | greaterEqual =>
          obtain ⟨rfl, rfl⟩ := List.cons.inj hbytes
          exact ⟨_, rfl, Nat.le_refl _⟩
      | _ =>
          obtain ⟨rfl, rfl⟩ := List.cons.inj hbytes
          exact ⟨_, rfl, Nat.zero_le _⟩

/-- What is taken is the longest spelling. -/
theorem munch_longest {found : Token.Kind × Nat} (h : munch b rest = some found) :
    Longest found.1 (b :: rest.take found.2) (rest.drop found.2) := by
  refine ⟨munch_spells h, fun kind' more hne hmore hspells => ?_⟩
  have hprefix : rest.take found.2 ++ more <+: rest := by
    obtain ⟨after, hafter⟩ := hmore
    exact ⟨after, by rw [List.append_assoc, hafter, List.take_append_drop]⟩
  rw [List.cons_append] at hspells
  obtain ⟨found', hfound, hle⟩ := munch_of_spells hspells hprefix
  obtain rfl := Option.some.inj (h.symm.trans hfound)
  have hpos := List.length_pos_iff.mpr hne
  have hwithin := hmore.length_le
  rw [List.length_append, List.length_take] at hle
  rw [List.length_drop] at hwithin
  omega

theorem munch_eq_none (h : munch b rest = none) (hbs : bs <+: b :: rest) : ¬ Spells kind bs := by
  intro hspells
  cases bs with
  | nil => exact hspells.ne_nil rfl
  | cons c more =>
      obtain ⟨rfl, hmore⟩ := List.cons_prefix_cons.mp hbs
      obtain ⟨found, hfound, -⟩ := munch_of_spells hspells hmore
      rw [h] at hfound
      cases hfound

end

end TierCalc.Lexer
