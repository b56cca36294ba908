import Mathlib.Tactic.Common
import TierCalc.Proofs.Expr.Shape
import TierCalc.Proofs.Routine.Pieces
import TierCalc.Proofs.X64.Codec

/-!
# What generating code does

The code of an expression is put together from that of its parts. `body_int` to `body_cond` say from which, one for
each kind of node; everything else about `body` is derived from them by induction over the expression.

* `body_grows`: names only ever get slots, each once, every assigned name has one in the end, and a name is certainly
  defined afterwards only if it was before or is assigned.
* `body_encodable`: all instructions have an encoding.
* `body_shape`: expressions of the same shape have the same code.
-/

namespace TierCalc.Routine

open X64

/-! ### The code of a node -/

section
variable {d : Nat} {p p' : Progress} {ps : List Piece}

theorem body_int {pos : Position} {literal : String} {v : Int64} (h : body d (.int pos literal v) p = .ok (ps, p')) :
    ps = pieces [.mov .rax v] ∧ p' = p := by
  simp only [body, Except.ok.injEq, Prod.mk.injEq] at h
  exact ⟨h.1.symm, h.2.symm⟩

theorem body_ident {pos : Position} {name : String} (h : body d (.ident pos name) p = .ok (ps, p')) :
    name ∈ p.defined ∧ ps = pieces [.load .rax .rbp (frameOffset (p.names.idxOf name))] ∧ p' = p := by
  simp only [body] at h
  split at h
  · rename_i hd
    simp only [Except.ok.injEq, Prod.mk.injEq] at h
    exact ⟨by simpa using hd, h.1.symm, h.2.symm⟩
  · cases h

theorem body_binary {l r : Expr} {pos : Position} {op : UInt8} (h : body d (.binary l pos op r) p = .ok (ps, p')) :
    ∃ o right left q, Operator.ofNumber? op = some o ∧ l.interferes r = false ∧
      body d r p = .ok (right, q) ∧ d + 1 ≤ maxDepth ∧
      body (d + 1) l { q with deepest := max q.deepest (d + 1) } = .ok (left, p') ∧
      ps = right ++ pieces [.push .rax] ++ left ++ pieces [.pop .rcx] ++ operatorPieces d o := by
  simp only [body] at h
  split at h
  · cases h
  · rename_i o ho
    split at h
    · cases h
    · rename_i hi
      obtain ⟨⟨right, q⟩, hr, h⟩ := ok_of_bind h
      split at h
      · cases h
      · rename_i hd
        obtain ⟨⟨left, q'⟩, hl, h⟩ := ok_of_bind h
        simp only [pure_ok, Except.ok.injEq, Prod.mk.injEq] at h
        obtain ⟨rfl, rfl⟩ := h
        exact ⟨o, right, left, q, ho, by simpa using hi, hr, by omega, hl, rfl⟩

theorem body_assign {pos eqPos : Position} {name : String} {v : Expr}
    (h : body d (.assign pos name eqPos v) p = .ok (ps, p')) :
    ∃ value q, body d v p = .ok (value, q) ∧ (Layout.add q.names name).idxOf name < maxSlots ∧
      ps = value ++ pieces [.store .rbp (frameOffset ((Layout.add q.names name).idxOf name)) .rax,
        .storeImm .rdi (flagOffset ((Layout.add q.names name).idxOf name)) 1] ∧
      p' = { q with names := Layout.add q.names name, defined := Layout.add q.defined name } := by
  simp only [body] at h
  obtain ⟨⟨value, q⟩, hv, h⟩ := ok_of_bind h
  split at h
  · cases h
  · rename_i hs
    simp only [pure_ok, Except.ok.injEq, Prod.mk.injEq] at h
    obtain ⟨rfl, rfl⟩ := h
    exact ⟨value, q, hv, by simpa using hs, rfl, rfl⟩

theorem body_call {pos lparen rparen : Position} {name : String} {args : List Expr} :
    body d (.call pos name lparen args rparen) p ≠ .ok (ps, p') := by
  simp [body]

theorem body_cond {pos lparen rparen : Position} {c y n : Expr}
    (h : body d (.cond pos lparen c y n rparen) p = .ok (ps, p')) :
    ∃ test yes no q₁ q₂ q₃, body d c p = .ok (test, q₁) ∧ body d y q₁ = .ok (yes, q₂) ∧
      body d n { q₂ with defined := q₁.defined } = .ok (no, q₃) ∧ ps = test ++ choicePieces yes no ∧
      p' = { q₃ with defined := q₃.defined.filter q₂.defined.contains } := by
  simp only [body] at h
  obtain ⟨⟨test, q₁⟩, hc, h⟩ := ok_of_bind h
  obtain ⟨⟨yes, q₂⟩, hy, h⟩ := ok_of_bind h
  obtain ⟨⟨no, q₃⟩, hn, h⟩ := ok_of_bind h
  simp only [pure_ok, Except.ok.injEq, Prod.mk.injEq] at h
  obtain ⟨rfl, rfl⟩ := h
  exact ⟨test, yes, no, q₁, q₂, q₃, hc, hy, hn, rfl, rfl⟩

end

/-! ### Names and slots -/

theorem mem_add {names : List String} {name n : String} : n ∈ Layout.add names name ↔ n ∈ names ∨ n = name := by
  unfold Layout.add
  split_ifs with h
  · simp only [List.contains_eq_mem, decide_eq_true_eq] at h
    constructor
    · exact Or.inl
    · rintro (hn | rfl)
      · exact hn
      · exact h
  · simp

theorem prefix_add (names : List String) (name : String) : names <+: Layout.add names name := by
  unfold Layout.add
  split_ifs
  · exact List.prefix_rfl
  · exact List.prefix_append _ _

theorem nodup_add {names : List String} (h : names.Nodup) (name : String) : (Layout.add names name).Nodup := by
  unfold Layout.add
  split_ifs with hc
  · exact h
  · simp only [List.contains_eq_mem, decide_eq_true_eq] at hc
    rw [List.nodup_append]
    refine ⟨h, by simp, ?_⟩
    rintro a ha b hb rfl
    simp only [List.mem_singleton] at hb
    exact hc (hb ▸ ha)

/-- What generating the code of an expression does to what is known. -/
structure Grows (e : Expr) (p p' : Progress) : Prop where
  names : p.names <+: p'.names
  nodup : p.names.Nodup → p'.names.Nodup
  deepest : p.deepest ≤ p'.deepest
  bounded : p.deepest ≤ maxDepth → p'.deepest ≤ maxDepth
  writes : ∀ n ∈ e.writes, n ∈ p'.names
  defined : ∀ n ∈ p'.defined, n ∈ p.defined ∨ n ∈ e.writes

theorem Grows.closed {e : Expr} {p p' : Progress} (g : Grows e p p') (h : p.defined ⊆ p.names) :
    p'.defined ⊆ p'.names := by
  intro n hn
  rcases g.defined n hn with hn | hn
  · exact g.names.subset (h hn)
  · exact g.writes n hn

theorem body_grows {e : Expr} {d : Nat} {p p' : Progress} {ps : List Piece} (h : body d e p = .ok (ps, p')) :
    Grows e p p' := by
  induction e using Expr.nodeInduction generalizing d p p' ps with
  | int pos literal v =>
      obtain ⟨-, rfl⟩ := body_int h
      exact ⟨List.prefix_rfl, id, le_refl _, id, by simp, fun n hn => .inl hn⟩
  | ident pos name =>
      obtain ⟨-, -, rfl⟩ := body_ident h
      exact ⟨List.prefix_rfl, id, le_refl _, id, by simp, fun n hn => .inl hn⟩
  | binary l pos op r ihl ihr =>
      obtain ⟨o, right, left, q, -, -, hr, hd, hl, -⟩ := body_binary h
      have gr := ihr hr
      have gl := ihl hl
      refine ⟨gr.names.trans gl.names, fun hn => gl.nodup (gr.nodup hn), ?_, ?_, ?_, ?_⟩
      · have h1 := gr.deepest
        have h2 := gl.deepest
        simp only at h2
        omega
      · intro hb
        have h1 := gr.bounded hb
        exact gl.bounded (by simp only; omega)
      · intro n hn
        rw [Expr.writes_binary, List.mem_append] at hn
        rcases hn with hn | hn
        · exact gl.writes n hn
        · exact gl.names.subset (gr.writes n hn)
      · intro n hn
        rw [Expr.writes_binary, List.mem_append]
        rcases gl.defined n hn with h1 | h1
        · rcases gr.defined n h1 with h2 | h2
          · exact .inl h2
          · exact .inr (.inr h2)
        · exact .inr (.inl h1)
  | assign pos name eqPos v ih =>
      obtain ⟨value, q, hv, -, -, rfl⟩ := body_assign h
      have g := ih hv
      refine ⟨g.names.trans (prefix_add _ _), fun hn => nodup_add (g.nodup hn) _, g.deepest, g.bounded, ?_, ?_⟩
      · intro n hn
        rw [Expr.writes_assign, List.mem_cons] at hn
        rw [mem_add]
        rcases hn with rfl | hn
        · exact .inr rfl
        · exact .inl (g.writes n hn)
      · intro n hn
        rw [Expr.writes_assign, List.mem_cons]
        rcases mem_add.mp hn with h1 | rfl
        · rcases g.defined n h1 with h2 | h2
          · exact .inl h2
          · exact .inr (.inr h2)
        · exact .inr (.inl rfl)
  | call pos name lparen args rparen _ => exact absurd h body_call
  | cond pos lparen c y n rparen ihc ihy ihn =>
      obtain ⟨test, yes, no, q₁, q₂, q₃, hc, hy, hn, -, rfl⟩ := body_cond h
      have gc := ihc hc
      have gy := ihy hy
      have gn := ihn hn
      refine ⟨gc.names.trans (gy.names.trans gn.names), fun h => gn.nodup (gy.nodup (gc.nodup h)),
        gc.deepest.trans (gy.deepest.trans gn.deepest), fun h => gn.bounded (gy.bounded (gc.bounded h)), ?_, ?_⟩
      · intro m hm
        rw [Expr.writes_cond, List.mem_append, List.mem_append] at hm
        rcases hm with hm | hm | hm
        · exact gn.names.subset (gy.names.subset (gc.writes m hm))
        · exact gn.names.subset (gy.writes m hm)
        · exact gn.writes m hm
      · intro m hm
        rw [Expr.writes_cond, List.mem_append, List.mem_append]
        rcases gn.defined m (List.mem_filter.mp hm).1 with h1 | h1
        · rcases gc.defined m h1 with h2 | h2
          · exact .inl h2
          · exact .inr (.inl h2)
        · exact .inr (.inr (.inr h1))

/-! ### Encodings -/

/-- Whether every instruction among pieces has an encoding. -/
def AllEncodable (ps : List Piece) : Prop := ∀ i, .instr i ∈ ps → i.Encodable

theorem allEncodable_append {ps qs : List Piece} : AllEncodable (ps ++ qs) ↔ AllEncodable ps ∧ AllEncodable qs := by
  simp only [AllEncodable, List.mem_append, or_imp, forall_and]

theorem allEncodable_pieces {is : List Instr} : AllEncodable (pieces is) ↔ ∀ i ∈ is, i.Encodable := by
  simp [AllEncodable, pieces]

theorem operatorPieces_encodable (d : Nat) (o : Operator) : AllEncodable (operatorPieces d o) := by
  have hax : Reg.rax.Encodable := by decide
  have hcx : Reg.rcx.Encodable := by decide
  have hdx : Reg.rdx.Encodable := by decide
  have hsp : Reg.rsp.Encodable := by decide
  have hdi : Reg.rdi.Encodable := by decide
  have hne : Reg.rdi ≠ Reg.rsp := by decide
  cases o with
  | add | subtract | multiply =>
      simp [operatorPieces, allEncodable_pieces, Instr.Encodable, hax, hcx]
  | equal | notEqual | lessThan | greaterThan | lessOrEqual | greaterOrEqual =>
      simp only [operatorPieces, comparisonPieces, allEncodable_pieces, List.mem_cons, List.not_mem_nil, or_false,
        forall_eq_or_imp, forall_eq, Instr.Encodable]
      refine ⟨⟨hax, hcx⟩, ⟨by decide, hax⟩, hax, hax⟩
  | divide | modulo =>
      have hexit : AllEncodable [.exit] := by simp [AllEncodable]
      simp only [operatorPieces, divisionPieces, allEncodable_append, allEncodable_pieces]
      refine ⟨⟨?_, ?_, hexit⟩, ?_⟩
      · simp [Instr.Encodable, hcx, Cond.notEqual]
      · split_ifs <;> simp [Instr.Encodable, hsp, hdi, hne]
      · simp [Instr.Encodable, hax, hcx, hdx, Cond.notEqual]

theorem choicePieces_encodable {yes no : List Piece} (hy : AllEncodable yes) (hn : AllEncodable no) :
    AllEncodable (choicePieces yes no) := by
  have hax : Reg.rax.Encodable := by decide
  simp only [choicePieces, allEncodable_append, allEncodable_pieces]
  refine ⟨⟨⟨?_, hy⟩, ?_⟩, hn⟩
  · simp [Instr.Encodable, hax, Cond.equal]
  · simp [Instr.Encodable]

theorem body_encodable {e : Expr} {d : Nat} {p p' : Progress} {ps : List Piece} (h : body d e p = .ok (ps, p')) :
    AllEncodable ps := by
  have hax : Reg.rax.Encodable := by decide
  have hcx : Reg.rcx.Encodable := by decide
  have hbp : Reg.rbp.Encodable := by decide
  have hdi : Reg.rdi.Encodable := by decide
  induction e using Expr.nodeInduction generalizing d p p' ps with
  | int pos literal v =>
      obtain ⟨rfl, -⟩ := body_int h
      simp [allEncodable_pieces, Instr.encodable_mov hax]
  | ident pos name =>
      obtain ⟨-, rfl, -⟩ := body_ident h
      simp only [allEncodable_pieces, List.mem_singleton, forall_eq]
      exact ⟨hax, hbp, by decide⟩
  | binary l pos op r ihl ihr =>
      obtain ⟨o, right, left, q, -, -, hr, -, hl, rfl⟩ := body_binary h
      simp only [allEncodable_append, allEncodable_pieces, List.mem_singleton, forall_eq]
      exact ⟨⟨⟨⟨ihr hr, hax⟩, ihl hl⟩, hcx⟩, operatorPieces_encodable d o⟩
  | assign pos name eqPos v ih =>
      obtain ⟨value, q, hv, -, rfl, -⟩ := body_assign h
      simp only [allEncodable_append, allEncodable_pieces, List.mem_cons, List.not_mem_nil, or_false,
        forall_eq_or_imp, forall_eq]
      exact ⟨ih hv, ⟨hax, hbp, by decide⟩, ⟨hdi, by decide⟩⟩
  | call pos name lparen args rparen _ => exact absurd h body_call
  | cond pos lparen c y n rparen ihc ihy ihn =>
      obtain ⟨test, yes, no, q₁, q₂, q₃, hc, hy, hn, rfl, -⟩ := body_cond h
      exact allEncodable_append.mpr ⟨ihc hc, choicePieces_encodable (ihy hy) (ihn hn)⟩

/-- Closing pieces adds jumps over what is left of them. -/
theorem forall_mem_close {Q : Instr → Prop} {ps : List Piece} (h : ∀ i, .instr i ∈ ps → Q i)
    (hexit : ∀ n ≤ piecesSize ps, Q (.jmp (Int32.ofNat n))) : ∀ i ∈ close ps, Q i := by
  induction ps with
  | nil => simp [close]
  | cons q ps ih =>
      rw [piecesSize] at hexit
      have hrest := ih (fun i hi => h i (List.mem_cons_of_mem _ hi)) fun n hn => hexit n (by omega)
      cases q with
      | instr i => simpa [close] using ⟨h i (by simp), hrest⟩
      | exit => simpa [close] using ⟨hexit _ (by omega), hrest⟩

theorem prologue_encodable (slots : Nat) : ∀ i ∈ prologue slots, i.Encodable := by
  have hax : Reg.rax.Encodable := by decide
  have hbp : Reg.rbp.Encodable := by decide
  have hsp : Reg.rsp.Encodable := by decide
  have hdi : Reg.rdi.Encodable := by decide
  simp only [prologue, List.forall_mem_append, List.forall_mem_flatMap, List.forall_mem_cons]
  refine ⟨⟨⟨hbp, ⟨hbp, hsp⟩, by simp⟩, ?_⟩,
    fun i _ => ⟨⟨hax, hdi, by decide⟩, ⟨hax, hbp, by decide⟩, by simp⟩⟩
  split_ifs <;> simp [Instr.Encodable, hsp]

theorem copyBack_encodable (slots : Nat) : ∀ i ∈ copyBack slots, i.Encodable := by
  have hcx : Reg.rcx.Encodable := by decide
  simp only [copyBack, List.forall_mem_flatMap, List.forall_mem_cons]
  exact fun i _ => ⟨⟨hcx, by decide, by decide⟩, ⟨hcx, by decide, by decide⟩, by simp⟩

theorem epilogue_encodable : ∀ i ∈ epilogue, i.Encodable := by
  decide

theorem assemble_encodable {ps : List Piece} (h : AllEncodable ps) (slots : Nat) :
    ∀ i ∈ assemble slots ps, i.Encodable := by
  have hback : AllEncodable (pieces (copyBack slots)) := allEncodable_pieces.mpr (copyBack_encodable slots)
  simp only [assemble, List.forall_mem_append]
  exact ⟨⟨prologue_encodable slots, forall_mem_close (allEncodable_append.mpr ⟨h, hback⟩) fun _ _ => trivial⟩,
    epilogue_encodable⟩

/-! ### Shapes -/

/-- Only what is said about a failure depends on more than the shape. -/
theorem body_shape (e : Expr) (d : Nat) (p : Progress) : (body d e.shape p).toOption = (body d e p).toOption := by
  induction e using Expr.nodeInduction generalizing d p with
  | int => rfl
  | ident pos name =>
      rw [Expr.shape, body, body]
  | binary l pos op r ihl ihr =>
      rw [Expr.shape, body, body, Expr.interferes_shape]
      cases Operator.ofNumber? op with
      | none => rfl
      | some o =>
          dsimp only
          by_cases hi : l.interferes r = true
          · rw [if_pos hi, if_pos hi]
            rfl
          · rw [if_neg hi, if_neg hi, toOption_bind, toOption_bind, ihr]
            congr 1
            funext x
            obtain ⟨right, q⟩ := x
            dsimp only
            split_ifs with hd
            · rfl
            · rw [toOption_bind, toOption_bind, ihl]
  | assign _ name _ v ih =>
      rw [Expr.shape, body, body, toOption_bind, toOption_bind, ih]
  | call => rfl
  | cond _ _ c y n _ ihc ihy ihn =>
      rw [Expr.shape, body, body, toOption_bind, toOption_bind, ihc]
      congr 1
      funext x
      obtain ⟨test, q⟩ := x
      dsimp only
      rw [toOption_bind, toOption_bind, ihy]
      congr 1
      funext x
      obtain ⟨yes, q'⟩ := x
      dsimp only
      rw [toOption_bind, toOption_bind, ihn]

end TierCalc.Routine
