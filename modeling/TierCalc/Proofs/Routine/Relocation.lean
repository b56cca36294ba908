import TierCalc.Proofs.Routine.Accepted
import TierCalc.Proofs.X64.Relocation

/-!
# The prologue moves the body

A routine is put together without its prologue, whose size is known only when all slots are. The prologue is then put
in front. Since code can be moved, every branch still leads to the instruction that it was patched to.

* `Charted.lands`: in code whose pieces can be marked, each branch leads to an instruction of the code.
* `remainder_written`: the code behind the prologue is what an assembler writes that appends the instructions with open
  branches and patches each branch to the instruction it leads to.
-/

namespace TierCalc.Routine

open X64

/-! ### Landing places -/

section
variable {slots s : Nat} {A : List (Piece × Nat)}

theorem lands_cons {i : Instr} {is : List Instr}
    (hhead : i.branch?.isSome → ∃ q ∈ placedFrom (s + i.size) is, (q.offset : Int) = (⟨s, i⟩ : Placed).target)
    (htail : ∀ p ∈ placedFrom (s + i.size) is, p.instr.branch?.isSome →
      ∃ q ∈ placedFrom (s + i.size) is, (q.offset : Int) = p.target) :
    ∀ p ∈ placedFrom s (i :: is), p.instr.branch?.isSome →
      ∃ q ∈ placedFrom s (i :: is), (q.offset : Int) = p.target := by
  intro p hp hbranch
  rcases List.mem_cons.mp hp with rfl | hp
  · obtain ⟨q, hq, hoffset⟩ := hhead hbranch
    exact ⟨q, List.mem_cons_of_mem _ hq, hoffset⟩
  · obtain ⟨q, hq, hoffset⟩ := htail p hp hbranch
    exact ⟨q, List.mem_cons_of_mem _ hq, hoffset⟩

theorem Marks.landing {i : Instr} {n : Nat} {d : Int} (hi : i.branch? = some (Int32.ofNat n)) (hn : n < 2 ^ 31)
    (h : Marks slots (s + i.size) A (s + i.size + n) d) :
    ∃ q ∈ placedFrom (s + i.size) (close (A.map Prod.fst) ++ epilogue),
      (q.offset : Int) = (⟨s, i⟩ : Placed).target := by
  obtain ⟨q, hq, hoffset⟩ := h.placed
  exact ⟨q, hq, by rw [hoffset, target_of_branch hi hn]⟩

/-- Every branch of charted code leads to an instruction, if it is short enough for displacements. -/
theorem Charted.lands (h : Charted slots s A) (hsize : piecesSize (A.map Prod.fst) < 2 ^ 31) :
    ∀ p ∈ placedFrom s (close (A.map Prod.fst) ++ epilogue), p.instr.branch?.isSome →
      ∃ q ∈ placedFrom s (close (A.map Prod.fst) ++ epilogue), (q.offset : Int) = p.target := by
  induction h with
  | nil s =>
      intro p hp hbranch
      simp only [List.map_nil, close, List.nil_append, epilogue, placedFrom, List.mem_cons, List.not_mem_nil,
        or_false] at hp
      rcases hp with rfl | rfl | rfl <;> cases hbranch
  | @straight s c c' i A hi _ _ ih =>
      simp only [List.map_cons, piecesSize] at hsize
      refine lands_cons (fun hbranch => ?_) (ih (by omega))
      rw [hi.straight] at hbranch
      cases hbranch
  | jump _ hlt hto _ ih =>
      simp only [List.map_cons, piecesSize] at hsize
      exact lands_cons (fun _ => Marks.landing rfl hlt hto) (ih (by omega))
  | branch _ _ hlt _ hto _ ih =>
      simp only [List.map_cons, piecesSize] at hsize
      exact lands_cons (fun _ => Marks.landing rfl hlt hto) (ih (by omega))
  | @exit s A _ _ ih =>
      simp only [List.map_cons, piecesSize] at hsize
      exact lands_cons (fun _ => Marks.landing rfl (by omega) (marks_exit slots (s + 5) A)) (ih (by omega))

end

/-! ### The code behind the prologue -/

/-- The instructions of a routine behind its prologue. -/
def remainder (slots : Nat) (ps : List Piece) : List Instr := close (ps ++ pieces (copyBack slots)) ++ epilogue

theorem assemble_eq_remainder (slots : Nat) (ps : List Piece) :
    assemble slots ps = prologue slots ++ remainder slots ps := by
  rw [assemble, remainder, List.append_assoc]

section
variable {e : Expr} {seeds : List String} {ps : List Piece} {p : Progress}

theorem remainder_lands (h : body 0 e (seeded seeds) = .ok (ps, p)) (hslots : p.names.length ≤ maxSlots)
    (hsize : sizeAll (remainder p.names.length ps) < 2 ^ 31) :
    ∀ q ∈ placedFrom 0 (remainder p.names.length ps), q.instr.branch?.isSome →
      ∃ t ∈ placedFrom 0 (remainder p.names.length ps), (t.offset : Int) = q.target := by
  rw [remainder, sizeAll_append, sizeAll_close, piecesSize_append] at hsize
  have hbody := body_balanced h (List.Subset.refl _) (Nat.le_refl _) hslots (by omega)
  have hback : Balanced p.names.length (pieces (copyBack p.names.length)) 0 0 := copyBack_balanced hslots
  obtain ⟨A, hA, hchart, -⟩ := (hbody.append hback).charted (s := 0) (B := []) (.nil _) (.inl ⟨rfl, rfl⟩)
  rw [List.append_nil] at hchart
  have hlands := hchart.lands (by rw [hA, piecesSize_append]; omega)
  rwa [hA] at hlands

/-- An assembler writes the code behind the prologue: it appends the instructions with their branches open, and patches
every branch that is open to the instruction that it leads to. -/
theorem remainder_written (h : body 0 e (seeded seeds) = .ok (ps, p)) (hslots : p.names.length ≤ maxSlots)
    (hsize : sizeAll (remainder p.names.length ps) < 2 ^ 31) :
    ∃ calls sites b patches, Buffer.emitAll {} calls = .ok (sites, b) ∧
      b.patchAll patches = .ok ⟨encodeAll (remainder p.names.length ps)⟩ ∧
      patches.map Prod.fst = sites.map (Nat.cast : Nat → Int) ∧
      ∀ q ∈ patches, Leads (placedFrom 0 (remainder p.names.length ps)) q.1 q.2 := by
  have hencodable : ∀ i ∈ remainder p.names.length ps, i.Encodable := fun i hi =>
    assemble_encodable (body_encodable h) p.names.length i
      (assemble_eq_remainder _ _ ▸ List.mem_append_right _ hi)
  have hlands := remainder_lands h hslots hsize
  generalize remainder p.names.length ps = is at hencodable hlands
  have hleads : ∀ q ∈ patchesFrom 0 is, Leads (placedFrom 0 is) q.1 q.2 := by
    intro q hq
    obtain ⟨b, hb, hbranch, rfl⟩ := mem_patchesFrom.mp hq
    exact ⟨b, hb, hbranch, rfl, rfl, hlands b hb hbranch⟩
  refine ⟨is.map Instr.opened, _, _, patchesFrom 0 is, Buffer.emitAll_eq ?_ {}, ?_, map_fst_patchesFrom 0 is, hleads⟩
  · intro c hc
    obtain ⟨i, hi, rfl⟩ := List.mem_map.mp hc
    exact Instr.encodable_opened (hencodable i hi)
  · rw [List.map_map]
    refine Buffer.patchAll_opened [] is fun q hq => ?_
    obtain ⟨-, -, -, -, -, t, ht, htarget⟩ := hleads q hq
    have hstop := stop_le_of_mem_placedFrom ht
    rw [Placed.stop] at hstop
    rw [List.length_nil]
    omega

end

/-- Decoding does not depend on where code stands. Behind code that can be read, code is read exactly if it can be read
on its own: as the same instructions with their offsets and the targets of branches moved, or it fails for the same
reason at the moved offset. So a routine is its prologue and what is behind it, moved; and there, every branch leads to
the instruction that it was patched to before the prologue was put in front. -/
theorem decoding_relocates :
    (∀ (front : Bytes) (ps : List Placed), decodeAll front = .ok ps → ∀ code : Bytes,
      ((∃ qs, decodeAll (front ++ code) = .ok qs) ↔ ∃ qs, decodeAll code = .ok qs) ∧
      (∀ qs, decodeAll code = .ok qs → ∃ moved, decodeAll (front ++ code) = .ok (ps ++ moved) ∧
        List.Forall₂ (Placed.MovedBy front.length) qs moved) ∧
      ∀ err, decodeAll code = .error err →
        decodeAll (front ++ code) = .error ⟨err.offset + front.length, err.fault⟩) ∧
    ∀ (e : Expr) (seeds : List String) (r : Routine), generate e seeds = .ok r →
      ∃ (front code : Bytes) (qs moved : List Placed), front = encodeAll (prologue r.layout.size) ∧
        r.code = front ++ code ∧ decodeAll code = .ok qs ∧
        decodeAll r.code = .ok (placedFrom 0 (prologue r.layout.size) ++ moved) ∧
        List.Forall₂ (Placed.MovedBy front.length) qs moved ∧
        (r.size < 2 ^ 31 → ∃ calls sites b patches, Buffer.emitAll {} calls = .ok (sites, b) ∧
          b.patchAll patches = .ok ⟨code⟩ ∧ patches.map Prod.fst = sites.map (Nat.cast : Nat → Int) ∧
          ∀ q ∈ patches, Leads qs q.1 q.2 ∧ Leads moved (q.1 + front.length) (q.2 + front.length)) := by
  constructor
  · intro front ps hfront code
    have happend := decodeAll_append hfront code
    cases hcode : decodeAll code with
    | error err =>
        rw [hcode] at happend
        refine ⟨⟨?_, by rintro ⟨qs, ⟨⟩⟩⟩, by rintro qs ⟨⟩, ?_⟩
        · rintro ⟨qs, hqs⟩
          rw [happend] at hqs
          cases hqs
        · rintro err' ⟨⟩
          exact happend
    | ok qs =>
        rw [hcode] at happend
        refine ⟨⟨fun _ => ⟨qs, rfl⟩, fun _ => ⟨_, happend⟩⟩, ?_, by rintro err ⟨⟩⟩
        rintro qs' ⟨⟩
        exact ⟨_, happend, forall₂_movedBy _ _⟩
  · intro e seeds r h
    obtain ⟨ps, p, hbody, hslots, rfl⟩ := generate_eq_ok h
    have hencodable := assemble_encodable (body_encodable hbody) p.names.length
    rw [assemble_eq_remainder, List.forall_mem_append] at hencodable
    have hcode : encodeAll (assemble p.names.length ps)
        = encodeAll (prologue p.names.length) ++ encodeAll (remainder p.names.length ps) := by
      rw [assemble_eq_remainder, encodeAll_append]
    have hread := decodeAll_encodeAll hencodable.2
    have hmoved := decodeAll_append (decodeAll_encodeAll hencodable.1) (encodeAll (remainder p.names.length ps))
    rw [hread] at hmoved
    refine ⟨_, encodeAll (remainder p.names.length ps), _, _, rfl, hcode, hread, hcode ▸ hmoved,
      forall₂_movedBy _ _, fun hsize => ?_⟩
    have hbound : sizeAll (remainder p.names.length ps) < 2 ^ 31 := by
      rw [size, hcode, List.length_append, length_encodeAll (remainder _ _)] at hsize
      omega
    obtain ⟨calls, sites, b, patches, hemit, hpatch, hsites, hleads⟩ := remainder_written hbody hslots hbound
    exact ⟨calls, sites, b, patches, hemit, hpatch, hsites, fun q hq => ⟨hleads q hq, (hleads q hq).move _⟩⟩

/-- Behind a prologue without slots, a loop is read four bytes further on and a load that breaks off fails four bytes
further on; and a routine with a division has its branches where they were patched to. -/
theorem loop_relocates :
    decodeAll (encodeAll (prologue 0)) = .ok (placedFrom 0 (prologue 0)) ∧
    (∃ moved, decodeAll (encodeAll (prologue 0) ++ encodeAll [.jmp (-5), .ret])
        = .ok (placedFrom 0 (prologue 0) ++ moved) ∧
      List.Forall₂ (Placed.MovedBy 4) [⟨0, .jmp (-5)⟩, ⟨5, .ret⟩] moved) ∧
    decodeAll (encodeAll (prologue 0) ++ [0x48, 0x8B, 0x85]) = .error ⟨4, .truncatedImmediate⟩ ∧
    ∃ r, generate sumWithQuotient ["x", "z"] = .ok r ∧ r.size < 2 ^ 31 ∧
      ∃ (code : Bytes) (moved : List Placed) (b : Buffer) (patches : List (Int × Int)),
        r.code = encodeAll (prologue r.layout.size) ++ code ∧
        decodeAll r.code = .ok (placedFrom 0 (prologue r.layout.size) ++ moved) ∧ b.patchAll patches = .ok ⟨code⟩ ∧
        ∀ q ∈ patches, Leads moved (q.1 + (encodeAll (prologue r.layout.size)).length)
          (q.2 + (encodeAll (prologue r.layout.size)).length) := by
  have hprologue : decodeAll (encodeAll (prologue 0)) = .ok (placedFrom 0 (prologue 0)) :=
    decodeAll_encodeAll (by decide)
  have hloop : decodeAll (encodeAll [.jmp (-5), .ret]) = .ok [⟨0, .jmp (-5)⟩, ⟨5, .ret⟩] :=
    decodeAll_encodeAll (by decide)
  have hbroken : decodeAll [0x48, 0x8B, 0x85] = .error ⟨0, .truncatedImmediate⟩ := decodeFrom_of_error rfl 0
  obtain ⟨hfront, hroutine⟩ := decoding_relocates
  obtain ⟨r, hr, hsize⟩ := sumWithQuotient_generated
  obtain ⟨front, code, qs, moved, rfl, hcode, -, hmoved, -, hwritten⟩ := hroutine _ _ r hr
  obtain ⟨-, -, b, patches, -, hpatch, -, hleads⟩ := hwritten hsize
  exact ⟨hprologue, (hfront _ _ hprologue _).2.1 _ hloop, (hfront _ _ hprologue _).2.2 _ hbroken, r, hr, hsize, code,
    moved, b, patches, hcode, hmoved, hpatch, fun q hq => (hleads q hq).2⟩

end TierCalc.Routine
