import TierCalc.Proofs.Routine.Correctness
import TierCalc.Proofs.X64.Canonical
import TierCalc.Routine.Listing

/-!
# Listings of routines

A listing of a routine shows all of its code, and its notes say which word each memory operand addresses.

* `Spot` names the words of a routine by variables, and says where the layout puts each of them and how a listing calls
  it. `body_named`: every memory operand of a body addresses one of them.
* `Spot.memoryNote_of_operand`: the note on an operand is what the word is called; words have different operands
  (`Spot.operand?_inj`), but a variable may be called as another word is.
* `rows_of_code`: the rows are the instructions in order.
-/

namespace TierCalc.Routine

open X64

/-! ### Words of a routine -/

/-- A word that a routine may touch: the slot of a variable in its own frame, and in the block the value word and the
written word of a variable and the status word. -/
inductive Spot where
  | slot (name : String)
  | value (name : String)
  | written (name : String)
  | status
deriving DecidableEq, Repr

namespace Spot

/-- What a listing calls a word. -/
def text : Spot → String
  | slot name => name
  | value name => "value " ++ name
  | written name => "written " ++ name
  | status => "status"

/-- The operand that addresses a word, if the layout has it. -/
def operand? (l : Layout) : Spot → Option (Reg × Int32)
  | slot name => (l.slot? name).map fun s => (.rbp, frameOffset s)
  | value name => (l.slot? name).map fun s => (.rdi, valueOffset s)
  | written name => (l.slot? name).map fun s => (.rdi, flagOffset s)
  | status => some (.rdi, 0)

/-- Whether no other word of the layout is called the same. -/
def Clear (l : Layout) (s : Spot) : Prop := ∀ t : Spot, (t.operand? l).isSome → t.text = s.text → t = s

end Spot

/-! ### Slots -/

section
variable {l : Layout}

theorem slot?_eq_some {name : String} {s : Nat} (h : l.slot? name = some s) :
    s < l.size ∧ l.names.getD s "" = name := by
  obtain ⟨hlt, hget, -⟩ := List.idxOf?_eq_some_iff.mp h
  refine ⟨hlt, ?_⟩
  rw [List.getD_eq_getElem?_getD, List.getElem?_eq_getElem hlt]
  exact hget

theorem slot?_of_mem {name : String} (h : name ∈ l.names) : l.slot? name = some (l.names.idxOf name) := by
  obtain ⟨s, hs⟩ := Option.isSome_iff_exists.mp (List.isSome_idxOf?.mpr h)
  rw [Layout.slot?, List.idxOf_eq_getD_idxOf?, hs]
  rfl

theorem slot?_of_prefix {names : List String} {name : String} (hname : name ∈ names) (h : names <+: l.names) :
    l.slot? name = some (names.idxOf name) := by
  obtain ⟨more, hmore⟩ := h
  have hmem : name ∈ l.names := hmore ▸ List.mem_append_left more hname
  rw [slot?_of_mem hmem, ← hmore, List.idxOf_append_of_mem hname]

theorem words_of_offsets : ∀ s < maxSlots, (-frameOffset s / 8).toInt = (s + 1 : Nat) ∧
    (valueOffset s / 8).toInt = (1 + 2 * s : Nat) ∧ (flagOffset s / 8).toInt = (2 + 2 * s : Nat) := by
  decide

theorem memoryNote_word {disp : Int32} {word : Nat} (hword : (disp / 8).toInt = word) (hpos : 0 < word)
    (hsize : (word - 1) / 2 < l.size) :
    Listing.memoryNote l .rdi disp
      = .ok ((if word % 2 = 1 then "value " else "written ") ++ l.names.getD ((word - 1) / 2) "") := by
  have hindex : ((word : Int) - 1).tdiv 2 = ((word - 1) / 2 : Nat) := by
    rw [Int.tdiv_eq_ediv_of_nonneg (by omega)]
    omega
  have hparity : ((word : Int).tmod 2 = 1) = (word % 2 = 1) := by
    rw [Int.tmod_eq_emod_of_nonneg (by omega), eq_iff_iff]
    omega
  have hdi : Reg.rdi ≠ Reg.rbp := by decide
  simp only [Listing.memoryNote, if_neg hdi, if_true, hword, hindex, hparity, Listing.slotName, Int.toNat_natCast]
  rw [if_neg (by omega), if_neg (by omega), if_neg (by omega)]

namespace Spot

/-- The word that an operand addresses. -/
def ofOperand (l : Layout) (m : Reg × Int32) : Spot :=
  if m.1 = .rbp then slot (l.names.getD ((-m.2 / 8).toInt.toNat - 1) "")
  else
    let word := (m.2 / 8).toInt.toNat
    let name := l.names.getD ((word - 1) / 2) ""
    if word = 0 then status else if word % 2 = 1 then value name else written name

theorem ofOperand_eq (hsize : l.size ≤ maxSlots) {s : Spot} {m : Reg × Int32} (h : s.operand? l = some m) :
    ofOperand l m = s := by
  have hdi : Reg.rdi ≠ Reg.rbp := by decide
  cases s with
  | slot name =>
      obtain ⟨i, hi, rfl⟩ := Option.map_eq_some_iff.mp h
      obtain ⟨hlt, hname⟩ := slot?_eq_some hi
      have hindex : (-frameOffset i / 8).toInt.toNat - 1 = i := by
        rw [(words_of_offsets i (by omega)).1]
        omega
      rw [ofOperand, if_pos rfl, hindex, hname]
  | value name =>
      obtain ⟨i, hi, rfl⟩ := Option.map_eq_some_iff.mp h
      obtain ⟨hlt, hname⟩ := slot?_eq_some hi
      have hword : (valueOffset i / 8).toInt.toNat = 1 + 2 * i := by
        rw [(words_of_offsets i (by omega)).2.1]
        omega
      have hindex : (1 + 2 * i - 1) / 2 = i := by omega
      simp only [ofOperand, if_neg hdi, hword, hindex, hname]
      rw [if_neg (by omega), if_pos (by omega)]
  | written name =>
      obtain ⟨i, hi, rfl⟩ := Option.map_eq_some_iff.mp h
      obtain ⟨hlt, hname⟩ := slot?_eq_some hi
      have hword : (flagOffset i / 8).toInt.toNat = 2 + 2 * i := by
        rw [(words_of_offsets i (by omega)).2.2]
        omega
      have hindex : (2 + 2 * i - 1) / 2 = i := by omega
      simp only [ofOperand, if_neg hdi, hword, hindex, hname]
      rw [if_neg (by omega), if_neg (by omega)]
  | status =>
      obtain rfl := Option.some.inj h
      rfl

theorem operand?_inj (hsize : l.size ≤ maxSlots) {s t : Spot} {m : Reg × Int32} (hs : s.operand? l = some m)
    (ht : t.operand? l = some m) : s = t := (ofOperand_eq hsize hs).symm.trans (ofOperand_eq hsize ht)

/-- The note on an operand is what its word is called. -/
theorem memoryNote_of_operand (hsize : l.size ≤ maxSlots) {s : Spot} {m : Reg × Int32} (h : s.operand? l = some m) :
    Listing.memoryNote l m.1 m.2 = .ok s.text := by
  cases s with
  | slot name =>
      obtain ⟨i, hi, rfl⟩ := Option.map_eq_some_iff.mp h
      obtain ⟨hlt, hname⟩ := slot?_eq_some hi
      have hindex : (-frameOffset i / 8).toInt - 1 = i := by
        rw [(words_of_offsets i (by omega)).1]
        omega
      simp only [Listing.memoryNote, if_true, hindex, Int.toNat_natCast, hname]
      rw [if_neg (by omega)]
      rfl
  | value name =>
      obtain ⟨i, hi, rfl⟩ := Option.map_eq_some_iff.mp h
      obtain ⟨hlt, hname⟩ := slot?_eq_some hi
      have hindex : (1 + 2 * i - 1) / 2 = i := by omega
      rw [memoryNote_word (words_of_offsets i (by omega)).2.1 (by omega) (by omega), hindex, hname, if_pos (by omega)]
      rfl
  | written name =>
      obtain ⟨i, hi, rfl⟩ := Option.map_eq_some_iff.mp h
      obtain ⟨hlt, hname⟩ := slot?_eq_some hi
      have hindex : (2 + 2 * i - 1) / 2 = i := by omega
      rw [memoryNote_word (words_of_offsets i (by omega)).2.2 (by omega) (by omega), hindex, hname, if_neg (by omega)]
      rfl
  | status =>
      obtain rfl := Option.some.inj h
      rfl

end Spot

end

/-! ### Operands of a routine -/

/-- Whether every memory operand of an instruction addresses a word of the layout. -/
def Named (l : Layout) (i : Instr) : Prop := ∀ m, i.memory? = some m → ∃ s : Spot, s.operand? l = some m

section
variable {l : Layout}

theorem named_of_none {i : Instr} (h : i.memory? = none) : Named l i := by
  intro m hm
  rw [h] at hm
  cases hm

theorem named_of_some {i : Instr} {m : Reg × Int32} {s : Spot} (hi : i.memory? = some m) (hs : s.operand? l = some m) :
    Named l i := by
  intro m' hm
  rw [hi] at hm
  obtain rfl := Option.some.inj hm
  exact ⟨s, hs⟩

/-- Whether this holds of all instructions among pieces. -/
def AllNamed (l : Layout) (ps : List Piece) : Prop := ∀ i, .instr i ∈ ps → Named l i

theorem allNamed_append {ps qs : List Piece} : AllNamed l (ps ++ qs) ↔ AllNamed l ps ∧ AllNamed l qs := by
  simp only [AllNamed, List.mem_append, or_imp, forall_and]

theorem allNamed_pieces {is : List Instr} : AllNamed l (pieces is) ↔ ∀ i ∈ is, Named l i := by
  simp [AllNamed, pieces]

/-- The only word that an operator touches is the status. -/
theorem operatorPieces_named (d : Nat) (o : Operator) : AllNamed l (operatorPieces d o) := by
  have hstatus (isModulo : Bool) : Named l (.storeImm .rdi 0 (statusOf isModulo)) :=
    named_of_some (s := .status) rfl rfl
  cases o with
  | add | subtract | multiply =>
      simp only [operatorPieces, allNamed_pieces, List.mem_singleton, forall_eq]
      exact named_of_none rfl
  | equal | notEqual | lessThan | greaterThan | lessOrEqual | greaterOrEqual =>
      simp only [operatorPieces, comparisonPieces, allNamed_pieces, List.forall_mem_cons]
      exact ⟨named_of_none rfl, named_of_none rfl, named_of_none rfl, by simp⟩
  | divide | modulo =>
      have hexit : AllNamed l [.exit] := by simp [AllNamed]
      simp only [operatorPieces, divisionPieces, allNamed_append, allNamed_pieces, List.forall_mem_append,
        List.forall_mem_cons]
      refine ⟨⟨⟨named_of_none rfl, named_of_none rfl, by simp⟩, ⟨?_, hstatus _, by simp⟩, hexit⟩, ?_⟩
      · split_ifs
        · exact List.forall_mem_singleton.mpr (named_of_none rfl)
        · simp
      · simp [Named, Instr.memory?]

theorem choicePieces_named {yes no : List Piece} (hy : AllNamed l yes) (hn : AllNamed l no) :
    AllNamed l (choicePieces yes no) := by
  simp only [choicePieces, allNamed_append, allNamed_pieces, List.forall_mem_cons]
  exact ⟨⟨⟨⟨named_of_none rfl, named_of_none rfl, by simp⟩, hy⟩, named_of_none rfl, by simp⟩, hn⟩

/-- The code of an expression touches slots and written words of variables and the status. -/
theorem body_named {e : Expr} {d : Nat} {p p' : Progress} {ps : List Piece} (h : body d e p = .ok (ps, p'))
    (hclosed : p.defined ⊆ p.names) (hnames : p'.names <+: l.names) : AllNamed l ps := by
  induction e using Expr.nodeInduction generalizing d p p' ps with
  | int pos literal v =>
      obtain ⟨rfl, -⟩ := body_int h
      simp only [allNamed_pieces, List.mem_singleton, forall_eq]
      rcases Instr.mov_cases .rax v with ⟨hv, -⟩ | hv <;> rw [hv] <;> exact named_of_none rfl
  | ident pos name =>
      obtain ⟨hdefined, rfl, rfl⟩ := body_ident h
      simp only [allNamed_pieces, List.mem_singleton, forall_eq]
      exact named_of_some (s := .slot name) rfl (by rw [Spot.operand?, slot?_of_prefix (hclosed hdefined) hnames]; rfl)
  | binary l pos op r ihl ihr =>
      obtain ⟨o, right, left, q, -, -, hr, -, hl, rfl⟩ := body_binary h
      have gl := body_grows hl
      have gr := body_grows hr
      simp only [allNamed_append, allNamed_pieces, List.mem_singleton, forall_eq]
      exact ⟨⟨⟨⟨ihr hr hclosed (gl.names.trans hnames), named_of_none rfl⟩, ihl hl (gr.closed hclosed) hnames⟩,
        named_of_none rfl⟩, operatorPieces_named d o⟩
  | assign pos name eqPos v ih =>
      obtain ⟨value, q, hv, -, rfl, rfl⟩ := body_assign h
      have hslot := slot?_of_prefix (mem_add.mpr (.inr rfl)) hnames
      simp only [allNamed_append, allNamed_pieces, List.forall_mem_cons]
      refine ⟨ih hv hclosed ((prefix_add _ _).trans hnames), named_of_some (s := .slot name) rfl ?_,
        named_of_some (s := .written name) rfl ?_, by simp⟩
      · rw [Spot.operand?, hslot]
        rfl
      · rw [Spot.operand?, hslot]
        rfl
  | call pos name lparen args rparen _ => exact absurd h body_call
  | cond pos lparen c y n rparen ihc ihy ihn =>
      obtain ⟨test, yes, no, q₁, q₂, q₃, hc, hy, hn, rfl, rfl⟩ := body_cond h
      have gc := body_grows hc
      have gy := body_grows hy
      have gn := body_grows hn
      have hclosed₁ := gc.closed hclosed
      have hnames₂ : q₂.names <+: l.names := gn.names.trans hnames
      refine allNamed_append.mpr ⟨ihc hc hclosed (gy.names.trans hnames₂), choicePieces_named ?_ ?_⟩
      · exact ihy hy hclosed₁ hnames₂
      · exact ihn hn (fun _ hm => gy.names.subset (hclosed₁ hm)) hnames

theorem close_named {ps : List Piece} (h : AllNamed l ps) : ∀ i ∈ close ps, Named l i := by
  induction ps with
  | nil => simp [close]
  | cons q ps ih =>
      have ih := ih fun i hi => h i (List.mem_cons_of_mem _ hi)
      cases q with
      | instr i => exact List.forall_mem_cons.mpr ⟨h i (by simp), ih⟩
      | exit => exact List.forall_mem_cons.mpr ⟨named_of_none rfl, ih⟩

/-- Every memory operand of a routine addresses a word of its layout. -/
theorem assemble_named {ps : List Piece} (h : AllNamed l ps) (hnodup : l.names.Nodup) :
    ∀ i ∈ assemble l.size ps, Named l i := by
  have hslot (s : Nat) (hs : s < l.size) : l.slot? (l.names.get ⟨s, hs⟩) = some s := by
    rw [slot?_of_mem (List.get_mem _ _)]
    exact congrArg some (hnodup.idxOf_getElem s hs)
  have hframe (s : Nat) (hs : s < l.size) :
      (Spot.slot (l.names.get ⟨s, hs⟩)).operand? l = some (.rbp, frameOffset s) := by
    rw [Spot.operand?, hslot]
    rfl
  have hvalue (s : Nat) (hs : s < l.size) :
      (Spot.value (l.names.get ⟨s, hs⟩)).operand? l = some (.rdi, valueOffset s) := by
    rw [Spot.operand?, hslot]
    rfl
  have hback : AllNamed l (pieces (copyBack l.size)) := by
    rw [allNamed_pieces]
    simp only [copyBack, List.forall_mem_flatMap, List.forall_mem_cons, List.mem_range]
    exact fun s hs => ⟨named_of_some rfl (hframe s hs), named_of_some rfl (hvalue s hs), by simp⟩
  simp only [assemble, List.forall_mem_append]
  refine ⟨⟨?_, close_named (allNamed_append.mpr ⟨h, hback⟩)⟩, ?_⟩
  · simp only [prologue, List.forall_mem_append, List.forall_mem_flatMap, List.forall_mem_cons, List.mem_range]
    refine ⟨⟨⟨named_of_none rfl, named_of_none rfl, by simp⟩, ?_⟩,
      fun s hs => ⟨named_of_some rfl (hvalue s hs), named_of_some rfl (hframe s hs), by simp⟩⟩
    split_ifs
    · exact List.forall_mem_singleton.mpr (named_of_none rfl)
    · simp
  · simp only [epilogue, List.forall_mem_cons]
    exact ⟨named_of_none rfl, named_of_none rfl, named_of_none rfl, by simp⟩

end

/-! ### Rows -/

theorem exists_mapM {α β ε : Type} {f : α → Except ε β} {R : α → β → Prop} {as : List α}
    (h : ∀ a ∈ as, ∃ b, f a = .ok b ∧ R a b) : ∃ bs, as.mapM f = .ok bs ∧ List.Forall₂ R as bs := by
  induction as with
  | nil => exact ⟨[], rfl, .nil⟩
  | cons a as ih =>
      rw [List.forall_mem_cons] at h
      obtain ⟨⟨b, hb, hr⟩, hrest⟩ := h
      obtain ⟨bs, hbs, hall⟩ := ih hrest
      refine ⟨b :: bs, ?_, .cons hr hall⟩
      rw [List.mapM_cons, bind_of_ok hb, bind_of_ok hbs]
      rfl

theorem bytes_of_mem_placedFrom {is : List Instr} {p : Placed} (before : Bytes) (h : p ∈ placedFrom before.length is) :
    ((before ++ encodeAll is).drop p.offset).take p.instr.size = p.instr.encode := by
  induction is generalizing before with
  | nil => cases h
  | cons i is ih =>
      rcases List.mem_cons.mp h with rfl | h
      · rw [List.drop_left, encodeAll_cons, Instr.size, List.take_left]
      · have hlength : (before ++ i.encode).length = before.length + i.size := List.length_append
        rw [encodeAll_cons, ← List.append_assoc]
        exact ih (before ++ i.encode) (hlength ▸ h)

namespace Listing

/-- Whether rows follow one another without a gap from one offset to another. -/
def Adjoin : Nat → List Row → Nat → Prop
  | start, [], stop => start = stop
  | start, r :: rest, stop => r.offset = start ∧ Adjoin (start + r.bytes.length) rest stop

/-- The note on an instruction of a routine whose exit is at an offset says what the instruction touches: the one word
that its memory operand addresses, or the exit. -/
structure Describes (l : Layout) (exit : Nat) (p : Placed) (note : String) : Prop where
  memory : ∀ m, p.instr.memory? = some m → ∃ s : Spot, s.operand? l = some m ∧ note = s.text ∧
    ∀ t : Spot, t.operand? l = some m → t = s
  clear : ∀ m, p.instr.memory? = some m → ∀ s : Spot, (s.operand? l).isSome → s.Clear l →
    (note = s.text ↔ s.operand? l = some m)
  branch : p.instr.branch?.isSome → (note = "exit" ↔ p.target = exit)
  other : p.instr.memory? = none → p.instr.branch? = none → note = if p.instr = .ret then "return rax" else ""

section
variable {l : Layout} {size exit : Nat} {p : Placed}

theorem note_of_memory {m : Reg × Int32} (h : p.instr.memory? = some m) : note size l p = memoryNote l m.1 m.2 := by
  obtain ⟨offset, i⟩ := p
  cases i with
  | load _ _ _ | store _ _ _ | storeImm _ _ _ =>
      obtain rfl := Option.some.inj h
      rfl
  | _ => cases h

theorem exitSize_eq : exitSize = sizeAll epilogue := rfl

theorem note_of_branch (h : p.instr.branch?.isSome) :
    note size l p = .ok (if p.target = (size : Int) - exitSize then "exit" else "") := by
  obtain ⟨offset, i⟩ := p
  cases i with
  | jcc _ _ | jmp _ => rfl
  | _ => cases h

theorem note_of_none (hm : p.instr.memory? = none) (hb : p.instr.branch? = none) :
    note size l p = .ok (if p.instr = .ret then "return rax" else "") := by
  obtain ⟨offset, i⟩ := p
  cases i with
  | load _ _ _ | store _ _ _ | storeImm _ _ _ => cases hm
  | jcc _ _ | jmp _ => cases hb
  | _ => rfl

theorem exists_note (hslots : l.size ≤ maxSlots) (hnamed : Named l p.instr) (hexit : size = exit + exitSize) :
    ∃ n, note size l p = .ok n ∧ Describes l exit p n := by
  cases hm : p.instr.memory? with
  | some m =>
      obtain ⟨s, hs⟩ := hnamed m hm
      have hbranch : p.instr.branch? = none := by
        cases hi : p.instr with
        | load _ _ _ | store _ _ _ | storeImm _ _ _ => rfl
        | _ => simp [hi, Instr.memory?] at hm
      refine ⟨s.text, by rw [note_of_memory hm, Spot.memoryNote_of_operand hslots hs], ?_⟩
      constructor
      · rw [hm]
        rintro _ ⟨⟩
        exact ⟨s, hs, rfl, fun t ht => Spot.operand?_inj hslots ht hs⟩
      · rw [hm]
        rintro _ ⟨⟩ t ht hclear
        constructor
        · intro htext
          rwa [← hclear s (by rw [hs]; rfl) htext]
        · intro ht
          rw [Spot.operand?_inj hslots ht hs]
      · simp [hbranch]
      · simp [hm]
  | none =>
      cases hb : p.instr.branch? with
      | some d =>
          have hbranch : p.instr.branch?.isSome := by rw [hb]; rfl
          have htarget : p.target = (size : Int) - exitSize ↔ p.target = exit := by omega
          refine ⟨_, note_of_branch hbranch, ?_⟩
          constructor
          · simp [hm]
          · simp [hm]
          · intro _
            rw [← htarget]
            split_ifs with h
            · simp [h]
            · simp [h]
          · simp [hb]
      | none =>
          refine ⟨_, note_of_none hm hb, ?_⟩
          constructor
          · simp [hm]
          · simp [hm]
          · simp [hb]
          · intro _ _
            rfl

end

/-- Whether a row shows an instruction. -/
structure Row.Shows (l : Layout) (exit : Nat) (p : Placed) (r : Row) : Prop where
  offset : r.offset = p.offset
  bytes : r.bytes = p.instr.encode
  text : r.text = p.text
  note : Describes l exit p r.note

section
variable {l : Layout} {exit : Nat} {is : List Instr}

/-- Code whose operands are words of the layout has a listing, with one row for each instruction in order. -/
theorem rows_of_code (hencodable : ∀ i ∈ is, i.Encodable) (hnamed : ∀ i ∈ is, Named l i) (hslots : l.size ≤ maxSlots)
    (hexit : sizeAll is = exit + exitSize) :
    ∃ rs, rows (encodeAll is) l = .ok rs ∧ List.Forall₂ (Row.Shows l exit) (placedFrom 0 is) rs := by
  rw [rows, decodeAll_encodeAll hencodable]
  refine exists_mapM fun p hp => ?_
  have hlength : (encodeAll is).length = exit + exitSize := (length_encodeAll is).trans hexit
  obtain ⟨n, hn, hdescribes⟩ := exists_note hslots (hnamed _ (instr_mem_of_mem_placedFrom hp)) hlength
  refine ⟨_, by rw [row, bind_of_ok hn]; rfl, rfl, bytes_of_mem_placedFrom [] hp, rfl, hdescribes⟩

theorem bytes_of_rows {start : Nat} {rs : List Row} (h : List.Forall₂ (Row.Shows l exit) (placedFrom start is) rs) :
    rs.flatMap Row.bytes = encodeAll is ∧ Adjoin start rs (start + sizeAll is) := by
  induction is generalizing start rs with
  | nil =>
      cases h
      exact ⟨rfl, rfl⟩
  | cons i is ih =>
      obtain _ | ⟨hrow, hrest⟩ := h
      obtain ⟨hbytes, hadjoin⟩ := ih hrest
      constructor
      · rw [List.flatMap_cons, hbytes, hrow.bytes, encodeAll_cons]
      · refine ⟨hrow.offset, ?_⟩
        rw [hrow.bytes, sizeAll, ← Nat.add_assoc]
        exact hadjoin

end

end Listing

/-- A name that is not `status` and has no blank is called as no other word is. -/
theorem Spot.clear_of_names {l : Layout} (hstatus : "status" ∉ l.names) (hblank : ∀ name ∈ l.names, ' ' ∉ name.toList)
    {s : Spot} (hs : (s.operand? l).isSome) : s.Clear l := by
  have hname {name : String} (h : ((slot name).operand? l).isSome) : name ≠ "status" ∧ ' ' ∉ name.toList := by
    have hslot : (l.slot? name).isSome := by simpa [operand?] using h
    have hmem : name ∈ l.names := List.isSome_idxOf?.mp hslot
    exact ⟨fun heq => hstatus (heq ▸ hmem), hblank name hmem⟩
  have hvalue (name : String) : ' ' ∈ ("value " ++ name).toList := by simp
  have hwritten (name : String) : ' ' ∈ ("written " ++ name).toList := by simp
  intro t ht htext
  cases t with
  | slot a =>
      obtain ⟨hne, hno⟩ := hname ht
      change a = _ at htext
      cases s with
      | slot b => exact congrArg slot htext
      | value b => exact absurd (htext ▸ hvalue b) hno
      | written b => exact absurd (htext ▸ hwritten b) hno
      | status => exact absurd htext hne
  | value a =>
      have hchars := congrArg String.toList htext
      cases s with
      | slot b => exact absurd (hchars ▸ hvalue a) (hname hs).2
      | value b => simpa [text] using htext
      | written b => simp [text] at hchars
      | status => simp [text] at hchars
  | written a =>
      have hchars := congrArg String.toList htext
      cases s with
      | slot b => exact absurd (hchars ▸ hwritten a) (hname hs).2
      | value b => simp [text] at hchars
      | written b => simpa [text] using htext
      | status => simp [text] at hchars
  | status =>
      have hchars := congrArg String.toList htext
      cases s with
      | slot b => exact absurd htext.symm (hname hs).1
      | value b => simp [text] at hchars
      | written b => simp [text] at hchars
      | status => rfl

theorem Listing.Describes.literal {l : Layout} {exit : Nat} {p : Placed} {note : String} (h : Describes l exit p note)
    (hstatus : "status" ∉ l.names) (hblank : ∀ name ∈ l.names, ' ' ∉ name.toList) {m : Reg × Int32}
    (hm : p.instr.memory? = some m) :
    (∀ name s, l.slot? name = some s → (note = name ↔ m = (.rbp, frameOffset s)) ∧
      (note = "value " ++ name ↔ m = (.rdi, valueOffset s)) ∧
      (note = "written " ++ name ↔ m = (.rdi, flagOffset s))) ∧
    (note = "status" ↔ m = (.rdi, 0)) := by
  have hword (w : Spot) {o : Reg × Int32} (ho : w.operand? l = some o) : note = w.text ↔ m = o := by
    have hsome : (w.operand? l).isSome := by rw [ho]; rfl
    rw [h.clear m hm w hsome (Spot.clear_of_names hstatus hblank hsome), ho, Option.some.injEq, eq_comm]
  refine ⟨fun name s hs => ⟨hword (.slot name) ?_, hword (.value name) ?_, hword (.written name) ?_⟩,
    hword .status rfl⟩
  all_goals
    rw [Spot.operand?, hs]
    rfl

/-- A listing shows all of a routine's code in order, and its notes agree with the layout. Every memory operand
addresses exactly one word of the layout and is noted by what that word is called; so a word is noted only where it is
addressed, unless another word of the layout is called the same. Only a variable can be that is named `status` or has a
blank in its name. A branch is noted as `exit` if it leads to the last three instructions and else not. -/
theorem listing_faithful {e : Expr} {seeds : List String} {r : Routine} (h : generate e seeds = .ok r) :
    ∃ placed rows front exit, decodeAll r.code = .ok placed ∧ Listing.rows r.code r.layout = .ok rows ∧
      placed = front ++ [⟨exit, .movReg .rsp .rbp⟩, ⟨exit + 3, .pop .rbp⟩, ⟨exit + 4, .ret⟩] ∧
      rows.flatMap Listing.Row.bytes = r.code ∧ Listing.Adjoin 0 rows r.size ∧
      List.Forall₂ (Listing.Row.Shows r.layout exit) placed rows ∧
      ("status" ∉ r.layout.names → (∀ name ∈ r.layout.names, ' ' ∉ name.toList) →
        List.Forall₂ (fun p row => ∀ m, p.instr.memory? = some m →
          (∀ name s, r.layout.slot? name = some s → (row.note = name ↔ m = (.rbp, frameOffset s)) ∧
            (row.note = "value " ++ name ↔ m = (.rdi, valueOffset s)) ∧
            (row.note = "written " ++ name ↔ m = (.rdi, flagOffset s))) ∧
          (row.note = "status" ↔ m = (.rdi, 0))) placed rows) := by
  obtain ⟨hnodup, -⟩ := generate_names h
  obtain ⟨ps, p, hbody, hslots, rfl⟩ := generate_eq_ok h
  have hencodable := assemble_encodable (body_encodable hbody) p.names.length
  have hnamed := assemble_named (l := ⟨p.names, (Layout.ofSeeds seeds).seeds⟩)
    (body_named hbody (List.Subset.refl _) List.prefix_rfl) hnodup
  let inner := prologue p.names.length ++ close (ps ++ pieces (copyBack p.names.length))
  have hplaced : placedFrom 0 (assemble p.names.length ps)
      = placedFrom 0 inner ++ placedFrom (sizeAll inner) epilogue := by
    rw [assemble, placedFrom_append, Nat.zero_add]
  have hsize : sizeAll (assemble p.names.length ps) = sizeAll inner + Listing.exitSize := by
    rw [Listing.exitSize_eq]
    exact sizeAll_append _ _
  obtain ⟨rows, hrows, hshows⟩ := Listing.rows_of_code hencodable hnamed hslots hsize
  obtain ⟨hbytes, hadjoin⟩ := Listing.bytes_of_rows hshows
  refine ⟨_, rows, _, sizeAll inner, decodeAll_encodeAll hencodable, hrows, hplaced, hbytes, ?_, hshows, ?_⟩
  · rw [size, length_encodeAll]
    simpa using hadjoin
  · intro hstatus hblank
    refine hshows.imp ?_
    intro p row hrow m hm
    exact hrow.note.literal hstatus hblank hm

set_option maxRecDepth 4000 in
/-- In the listing of the sum with a quotient, the written word of its third variable is noted where it is addressed. -/
theorem sumWithQuotient_listed :
    ∃ r placed rows, generate sumWithQuotient ["x", "z"] = .ok r ∧ r.layout.names = ["x", "z", "y"] ∧
      decodeAll r.code = .ok placed ∧ Listing.rows r.code r.layout = .ok rows ∧
      rows.flatMap Listing.Row.bytes = r.code ∧ Listing.Adjoin 0 rows r.size ∧
      List.Forall₂ (fun p row => ∀ m, p.instr.memory? = some m →
        (row.note = "written y" ↔ m = (.rdi, flagOffset 2)) ∧ (row.note = "status" ↔ m = (.rdi, 0))) placed rows := by
  obtain ⟨r, hr, hnames⟩ := (Option.any_eq_true _ _).mp
    (by decide : (made? sumWithQuotient ["x", "z"] 40).any (fun r => r.layout.names = ["x", "z", "y"]) = true)
  have hr := generate_of_made hr
  have hnames := of_decide_eq_true hnames
  obtain ⟨placed, rows, -, -, hplaced, hrows, -, hbytes, hadjoin, -, hnotes⟩ := listing_faithful hr
  refine ⟨r, placed, rows, hr, hnames, hplaced, hrows, hbytes, hadjoin, ?_⟩
  have hslot : r.layout.slot? "y" = some 2 := by rw [Layout.slot?, hnames]; rfl
  refine (hnotes (by rw [hnames]; decide) (by rw [hnames]; decide)).imp ?_
  intro p row hrow m hm
  exact ⟨((hrow m hm).1 "y" 2 hslot).2.2, (hrow m hm).2⟩

def statusRead : Expr := .ident default "status"

def statusRoutine : Routine :=
  ⟨encodeAll (assemble 1 (pieces [.load .rax .rbp (frameOffset 0)])), ⟨["status"], 1⟩, 0, 0⟩

/-- The slot of a variable that is called `status` is noted as the status word is. -/
theorem status_slot_noted :
    ¬ ∀ (e : Expr) (seeds : List String) (r : Routine) (placed : List Placed) (rows : List Listing.Row),
      generate e seeds = .ok r → decodeAll r.code = .ok placed → Listing.rows r.code r.layout = .ok rows →
      List.Forall₂ (fun p row => ∀ m, p.instr.memory? = some m → (row.note = "status" ↔ m = (.rdi, 0)))
        placed rows := by
  intro h
  have hmade : made? statusRead ["status"] 20 = some statusRoutine := by decide
  have hbody : AllNamed statusRoutine.layout (pieces [.load .rax .rbp (frameOffset 0)]) :=
    allNamed_pieces.mpr (List.forall_mem_singleton.mpr (named_of_some (s := .slot "status") rfl rfl))
  have hencodable : ∀ i ∈ assemble 1 (pieces [.load .rax .rbp (frameOffset 0)]), i.Encodable := by decide
  have hsize : sizeAll (assemble 1 (pieces [.load .rax .rbp (frameOffset 0)])) = 46 + Listing.exitSize := by decide
  obtain ⟨rows, hrows, hshows⟩ :=
    Listing.rows_of_code hencodable (assemble_named hbody (by decide)) (by decide) hsize
  have hliteral := h _ _ _ _ _ (generate_of_made hmade) (decodeAll_encodeAll hencodable) hrows
  have hlt : 4 < rows.length := by rw [← hshows.length_eq]; decide
  obtain ⟨s, hs, hnote, -⟩ := (hshows.get (by decide) hlt).note.memory (.rbp, frameOffset 0) rfl
  obtain rfl := Spot.operand?_inj (by decide) hs (t := .slot "status") rfl
  have hzero := (hliteral.get (by decide) hlt (.rbp, frameOffset 0) rfl).mp hnote
  cases hzero

end TierCalc.Routine
