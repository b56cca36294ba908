import TierCalc.Proofs.Routine.Body
import TierCalc.Proofs.X64.Assembler

/-!
# Writing and patching gives the composed code

A routine is written from front to back, with branches that are patched once their targets are there. It is the routine
that is put together from pieces (`write_eq_compose`), so nothing of the writing can go wrong: every patch finds its
placeholder, no placeholder stays open, and every operand that is pushed is popped.

* `Draft.extend` appends pieces to a draft as they stand before jumps to the exit are patched.
* `Draft.await` appends a branch without a target. `Draft.land_await` and `Draft.land_await_await` say that patching it
  gives the branch over all that was appended since.
* `Draft.compile_eq`: compiling an expression appends its pieces.
* `Draft.patch_exits`: patching the jumps to the exit closes the pieces.
-/

namespace TierCalc

theorem X64.Buffer.foldlM_emit {is : List X64.Instr} (h : ∀ i ∈ is, i.Encodable) (b : X64.Buffer) :
    is.foldlM X64.Buffer.emit b = .ok ⟨b.bytes ++ X64.encodeAll is⟩ := by
  induction is generalizing b with
  | nil => simp [X64.encodeAll, pure_ok]
  | cons i is ih =>
      rw [List.forall_mem_cons] at h
      rw [List.foldlM_cons, bind_of_ok (emit_encodable h.1 b), ih h.2, X64.encodeAll_cons, List.append_assoc]

namespace Routine

open X64

/-! ### Open jumps -/

/-- The instruction of a piece while the place of the exit is not known. -/
def Piece.opened : Piece → Instr
  | instr i => i
  | exit => .jmp 0

def openBytes (ps : List Piece) : Bytes := encodeAll (ps.map Piece.opened)

/-- The places of the jumps to the exit among pieces, the first of which is at an offset. -/
def exitSites : Nat → List Piece → List Nat
  | _, [] => []
  | offset, .instr i :: ps => exitSites (offset + i.size) ps
  | offset, .exit :: ps => (offset + 1) :: exitSites (offset + 5) ps

section
variable {offset : Nat} {ps qs : List Piece}

@[simp] theorem openBytes_append : openBytes (ps ++ qs) = openBytes ps ++ openBytes qs := by
  simp [openBytes]

@[simp] theorem openBytes_instr (i : Instr) (ps : List Piece) : openBytes (.instr i :: ps) = i.encode ++ openBytes ps :=
  rfl

theorem openBytes_exit (ps : List Piece) :
    openBytes (.exit :: ps) = [0xE9] ++ Instr.field 0 ++ openBytes ps := rfl

@[simp] theorem length_openBytes (ps : List Piece) : (openBytes ps).length = piecesSize ps := by
  induction ps with
  | nil => rfl
  | cons q ps ih =>
      cases q with
      | instr i => rw [openBytes_instr, List.length_append, ih, piecesSize, Piece.size, Instr.size]
      | exit =>
          rw [openBytes_exit, List.length_append, ih, piecesSize]
          rfl

@[simp] theorem exitSites_append :
    exitSites offset (ps ++ qs) = exitSites offset ps ++ exitSites (offset + piecesSize ps) qs := by
  induction ps generalizing offset with
  | nil => simp [exitSites, piecesSize]
  | cons q ps ih =>
      cases q with
      | instr i => simp [exitSites, piecesSize, Piece.size, ih, Nat.add_assoc]
      | exit =>
          have hsize : Piece.exit.size = 5 := rfl
          simp [exitSites, piecesSize, hsize, ih, Nat.add_assoc]

@[simp] theorem exitSites_pieces (is : List Instr) : exitSites offset (pieces is) = [] := by
  induction is generalizing offset with
  | nil => rfl
  | cons i is ih => exact ih

theorem exitSites_bounds {site : Nat} (h : site ∈ exitSites offset ps) :
    offset ≤ site ∧ site < offset + piecesSize ps := by
  induction ps generalizing offset with
  | nil => cases h
  | cons q ps ih =>
      cases q with
      | instr i =>
          have := ih h
          rw [piecesSize, Piece.size]
          omega
      | exit =>
          have hsize : Piece.exit.size = 5 := rfl
          rw [piecesSize, hsize]
          rcases List.mem_cons.mp h with rfl | h
          · omega
          · have := ih h
            omega

end

/-! ### Drafts -/

namespace Draft

/-- What is known at the end of a draft. -/
def progress (g : Draft) : Progress := ⟨g.names, g.defined, g.deepest⟩

/-- A draft with pieces appended. -/
def extend (g : Draft) (ps : List Piece) (p : Progress) : Draft :=
  { g with
    code := ⟨g.code.bytes ++ openBytes ps⟩
    names := p.names
    defined := p.defined
    deepest := p.deepest
    pending := g.pending ++ exitSites g.size ps
    exits := g.exits ++ exitSites g.size ps }

/-- A draft with a branch appended that waits for its target. -/
def await (g : Draft) (i : Instr) : Draft :=
  { g with code := ⟨g.code.bytes ++ i.encode⟩, pending := g.pending ++ [g.code.site i] }

/-- Whether the places that wait for a target lie in the code. -/
def Bounded (g : Draft) : Prop := ∀ site ∈ g.pending, site < g.size

section
variable {g : Draft} {ps qs : List Piece} {p q : Progress}

@[simp] theorem size_extend (g : Draft) (ps : List Piece) (p : Progress) :
    (g.extend ps p).size = g.size + piecesSize ps := by
  simp [size, extend]

theorem size_await (g : Draft) (i : Instr) : (g.await i).size = g.size + i.size := by
  simp [size, await, Instr.size]

@[simp] theorem depth_extend (g : Draft) (ps : List Piece) (p : Progress) : (g.extend ps p).depth = g.depth := rfl

@[simp] theorem progress_extend (g : Draft) (ps : List Piece) (p : Progress) : (g.extend ps p).progress = p := rfl

@[simp] theorem depth_await (g : Draft) (i : Instr) : (g.await i).depth = g.depth := rfl

@[simp] theorem progress_await (g : Draft) (i : Instr) : (g.await i).progress = g.progress := rfl

theorem extend_defined (g : Draft) (ps : List Piece) (p : Progress) (names : List String) :
    { g.extend ps p with defined := names } = g.extend ps { p with defined := names } := rfl

@[simp] theorem extend_nil (g : Draft) : g.extend [] g.progress = g := by
  simp [extend, openBytes, exitSites, encodeAll, progress]

@[simp] theorem extend_extend (g : Draft) : (g.extend ps p).extend qs q = g.extend (ps ++ qs) q := by
  simp only [extend, size, openBytes_append, exitSites_append, List.length_append, length_openBytes, List.append_assoc]

theorem Bounded.extend (h : g.Bounded) (ps : List Piece) (p : Progress) : (g.extend ps p).Bounded := by
  intro site hs
  rw [size_extend]
  rcases List.mem_append.mp hs with hs | hs
  · have := h site hs
    omega
  · exact (exitSites_bounds hs).2

theorem Bounded.await (h : g.Bounded) {i : Instr} (hi : 4 ≤ i.size) : (g.await i).Bounded := by
  intro site hs
  rw [size_await]
  rcases List.mem_append.mp hs with hs | hs
  · have := h site hs
    omega
  · rw [List.mem_singleton.mp hs, Buffer.site, ← size]
    omega

end

/-! ### Appending instructions -/

section
variable {g : Draft} {i : Instr} {is : List Instr}

theorem emit_eq (h : i.Encodable) (g : Draft) : g.emit i = .ok (g.extend [.instr i] g.progress) := by
  rw [emit, Buffer.emit_encodable h]
  simp [Except.mapError, bind, Except.bind, pure, Except.pure, extend, progress, openBytes, exitSites, encodeAll,
    Piece.opened]

theorem emitAll_eq (h : ∀ i ∈ is, i.Encodable) (g : Draft) : g.emitAll is = .ok (g.extend (pieces is) g.progress) := by
  induction is generalizing g with
  | nil => simp [emitAll, pieces, pure, Except.pure]
  | cons i is ih =>
      rw [List.forall_mem_cons] at h
      rw [emitAll, List.foldlM_cons, bind_of_ok (emit_eq h.1 g)]
      refine (ih h.2 _).trans ?_
      rw [extend_extend]
      rfl

theorem branch_eq (h : i.Encodable) (g : Draft) : g.branch i = .ok (g.code.site i, g.await i) := by
  rw [branch, emit, Buffer.emit_encodable h]
  rfl

end

/-! ### Patching branches -/

section
variable {g : Draft} {p : Progress} {ps : List Piece} {branch : Int32 → Instr} {opcode : Bytes}

/-- Patching an open place writes the distance to the end of the code into it. -/
theorem land_eq {before after : Bytes} {d : Int32} {others more : List Nat}
    (hcode : g.code.bytes = before ++ Instr.field d ++ after) (hpending : g.pending = others ++ before.length :: more)
    (hothers : before.length ∉ others) (hmore : before.length ∉ more) :
    g.land before.length = .ok { g with
      code := ⟨before ++ Instr.field (Int32.ofNat after.length) ++ after⟩, pending := others ++ more } := by
  have hlength : g.code.bytes.length = before.length + 4 + after.length := by
    rw [hcode, List.length_append, List.length_append]
    rfl
  have hpatch : g.code.patch before.length g.size
      = .ok ⟨before ++ Instr.field (Int32.ofNat after.length) ++ after⟩ := by
    rw [Buffer.patch, size, if_neg (by omega), if_neg (by omega), if_neg (by omega)]
    have hdistance : ((g.code.bytes.length : Nat) : Int) - (before.length : Nat) - 4 = (after.length : Nat) := by
      omega
    rw [hdistance, hcode, Int.toNat_natCast]
    exact congrArg (fun bytes => Except.ok (Buffer.mk bytes)) (Call.overwrite before after d _)
  have hfilter (l : List Nat) (hl : before.length ∉ l) : l.filter (· != before.length) = l :=
    List.filter_eq_self.mpr fun a ha => bne_iff_ne.mpr fun h => hl (h ▸ ha)
  rw [land, patch, hpatch]
  simp [hpending, hfilter _ hothers, hfilter _ hmore, Except.mapError, bind, Except.bind, pure, Except.pure]

theorem size_branch (hbranch : ∀ d, (branch d).encode = opcode ++ Instr.field d) (d : Int32) :
    (branch d).size = opcode.length + 4 := by
  rw [Instr.size, hbranch, List.length_append]
  rfl

theorem land_over {h : Draft} {after : Bytes} {more : List Nat} (hg : g.Bounded)
    (hbranch : ∀ d, (branch d).encode = opcode ++ Instr.field d)
    (hcode : h.code.bytes = g.code.bytes ++ (branch 0).encode ++ after)
    (hpending : h.pending = g.pending ++ g.code.site (branch 0) :: more)
    (hmore : ∀ site ∈ more, (g.await (branch 0)).size ≤ site) :
    h.land (g.code.site (branch 0)) = .ok { h with
      code := ⟨g.code.bytes ++ (branch (Int32.ofNat after.length)).encode ++ after⟩
      pending := g.pending ++ more } := by
  have hsite : g.code.site (branch 0) = (g.code.bytes ++ opcode).length := by
    rw [Buffer.site, size_branch hbranch, List.length_append]
    omega
  rw [hbranch, ← List.append_assoc] at hcode
  rw [hsite] at hpending ⊢
  rw [hbranch, ← List.append_assoc]
  refine land_eq hcode hpending (fun hs => ?_) (fun hs => ?_)
  · have := hg _ hs
    rw [size, List.length_append] at this
    omega
  · have := hmore _ hs
    rw [size_await, size_branch hbranch, size, List.length_append] at this
    omega

/-- A branch that is patched leads over the pieces behind it. -/
theorem land_await (hg : g.Bounded) (hbranch : ∀ d, (branch d).encode = opcode ++ Instr.field d) :
    ((g.await (branch 0)).extend ps p).land (g.code.site (branch 0))
      = .ok (g.extend (.instr (branch (Int32.ofNat (piecesSize ps))) :: ps) p) := by
  have hpending : ((g.await (branch 0)).extend ps p).pending
      = g.pending ++ g.code.site (branch 0) :: exitSites (g.await (branch 0)).size ps := List.append_assoc _ _ _
  rw [land_over hg hbranch rfl hpending fun site hs => (exitSites_bounds hs).1]
  simp only [extend, exitSites, openBytes_instr, length_openBytes, size_await, size_branch hbranch, List.append_assoc]
  rfl

theorem site_await_extend (hbranch : ∀ d, (branch d).encode = opcode ++ Instr.field d) (d : Int32) (i : Instr) :
    ((g.await (branch 0)).extend ps p).code.site i = (g.extend (.instr (branch d) :: ps) p).code.site i := by
  simp only [Buffer.site, extend, await, List.length_append, length_openBytes, openBytes_instr]
  rw [← Instr.size, ← Instr.size, size_branch hbranch, size_branch hbranch]
  omega

/-- A branch may lead over another one, which goes on waiting for its target. -/
theorem land_await_await (hg : g.Bounded) (hbranch : ∀ d, (branch d).encode = opcode ++ Instr.field d) (i : Instr)
    (hi : 4 ≤ i.size) :
    (((g.await (branch 0)).extend ps p).await i).land (g.code.site (branch 0))
      = .ok ((g.extend (.instr (branch (Int32.ofNat (piecesSize ps + i.size))) :: ps) p).await i) := by
  have hcode : (((g.await (branch 0)).extend ps p).await i).code.bytes
      = g.code.bytes ++ (branch 0).encode ++ (openBytes ps ++ i.encode) := List.append_assoc _ _ _
  have hpending : (((g.await (branch 0)).extend ps p).await i).pending
      = g.pending ++ g.code.site (branch 0) ::
        (exitSites (g.await (branch 0)).size ps ++ [((g.await (branch 0)).extend ps p).code.site i]) := by
    simp only [await, extend, List.append_assoc]
    rfl
  rw [land_over hg hbranch hcode hpending fun site hs => ?_]
  · have hlength : (openBytes ps ++ i.encode).length = piecesSize ps + i.size := by
      rw [List.length_append, length_openBytes, Instr.size]
    rw [site_await_extend hbranch (Int32.ofNat (piecesSize ps + i.size)), hlength]
    simp only [extend, exitSites, openBytes_instr, size_await, size_branch hbranch]
    simp only [await, List.append_assoc]
  · rcases List.mem_append.mp hs with hs | hs
    · exact (exitSites_bounds hs).1
    · rw [List.mem_singleton.mp hs, Buffer.site, ← size, size_extend]
      omega

end

theorem encode_jcc (c : Cond) (d : Int32) : (Instr.jcc c d).encode = [0x0F, 0x80 + c.number] ++ Instr.field d := rfl

theorem encode_jmp (d : Int32) : (Instr.jmp d).encode = [0xE9] ++ Instr.field d := rfl

theorem await_exit (g : Draft) :
    { g.await (.jmp 0) with exits := g.exits ++ [g.code.site (.jmp 0)] } = g.extend [.exit] g.progress := by
  rfl

/-! ### Nodes -/

section
variable {g : Draft}

theorem leaveAtZero_eq (hg : g.Bounded) (status : Int32) :
    let unwind := if g.depth > 0 then [Instr.addImm .rsp (Int32.ofNat (8 * g.depth))] else []
    let leave := pieces (unwind ++ [.storeImm .rdi 0 status]) ++ [.exit]
    g.leaveAtZero status = .ok (g.extend
      (pieces [.test .rcx .rcx, .jcc .notEqual (Int32.ofNat (piecesSize leave))] ++ leave) g.progress) := by
  intro unwind leave
  have hunwind : ∀ i ∈ unwind, i.Encodable := by
    have hsp : Reg.rsp.Encodable := by decide
    simp only [unwind]
    split_ifs <;> simp [Instr.Encodable, hsp]
  have hstore : (Instr.storeImm .rdi 0 status).Encodable := ⟨by decide, by decide⟩
  rw [leaveAtZero, bind_of_ok (emit_eq (by decide) g), jcc, bind_of_ok (branch_eq (by decide) _)]
  dsimp only
  rw [bind_of_ok (emitAll_eq hunwind _), bind_of_ok (emit_eq hstore _), jmp, bind_of_ok (branch_eq (by decide) _)]
  simp only [extend_extend, progress_extend, progress_await]
  refine (congrArg (fun g : Draft => g.land _) (await_exit _)).trans ?_
  rw [extend_extend, land_await (hg.extend _ _) (encode_jcc .notEqual), extend_extend]
  simp [leave, unwind, pieces]

theorem divide_eq (hg : g.Bounded) (isModulo : Bool) :
    g.divide isModulo = .ok (g.extend (divisionPieces isModulo g.depth) g.progress) := by
  have hminus : (if isModulo then Instr.xor32 .rax .rax else .neg .rax).Encodable := by
    cases isModulo <;> decide
  have hother : ∀ i ∈ [Instr.cqo, .idiv .rcx] ++ (if isModulo then [.movReg .rax .rdx] else []), i.Encodable := by
    cases isModulo <;> decide
  have hjmp (d : Int32) : (Instr.jmp d).size = 5 := rfl
  rw [divide, bind_of_ok (leaveAtZero_eq hg _), bind_of_ok (emit_eq (by decide) _), extend_extend, progress_extend]
  set h := g.extend _ g.progress with hdef
  have hh : h.Bounded := hg.extend _ _
  rw [jcc, bind_of_ok (branch_eq (by decide) _)]
  dsimp only
  rw [bind_of_ok (emit_eq hminus _), jmp, bind_of_ok (branch_eq (by decide) _)]
  dsimp only
  rw [bind_of_ok (land_await_await hh (encode_jcc .notEqual) _ (by decide)), bind_of_ok (emitAll_eq hother _),
    site_await_extend (encode_jcc .notEqual), land_await (hh.extend _ _) encode_jmp, extend_extend, hdef, extend_extend]
  simp only [progress_await, progress_extend, divisionPieces, piecesSize_pieces]
  simp [pieces, piecesSize, Piece.size, sizeAll, hjmp]

/-- Applying an operator appends its pieces. -/
theorem operate_eq (hg : g.Bounded) (o : Operator) :
    g.operate o = .ok (g.extend (operatorPieces g.depth o) g.progress) := by
  cases o with
  | add | subtract | multiply => exact emit_eq (by decide) g
  | divide => exact divide_eq hg false
  | modulo => exact divide_eq hg true
  | equal | notEqual | lessThan | greaterThan | lessOrEqual | greaterOrEqual => exact emitAll_eq (by decide) g

/-- A draft with another number of operands on the stack. -/
def atDepth (g : Draft) (depth : Nat) : Draft := { g with depth := depth }

theorem extend_atDepth (g : Draft) (depth : Nat) (ps : List Piece) (p : Progress) :
    (g.atDepth depth).extend ps p = (g.extend ps p).atDepth depth := rfl

theorem atDepth_atDepth (g : Draft) (depth depth' : Nat) : (g.atDepth depth).atDepth depth' = g.atDepth depth' := rfl

theorem Bounded.atDepth (hg : g.Bounded) (depth : Nat) : (g.atDepth depth).Bounded := hg

/-- A draft with one more operand on the stack. -/
def pushed (g : Draft) : Draft :=
  (g.extend [.instr (.push .rax)] { g.progress with deepest := max g.deepest (g.depth + 1) }).atDepth (g.depth + 1)

theorem Bounded.pushed (hg : g.Bounded) : g.pushed.Bounded :=
  hg.extend [.instr (.push .rax)] { g.progress with deepest := max g.deepest (g.depth + 1) }

theorem push_eq (g : Draft) :
    g.push = if g.depth + 1 > maxDepth then .error .tooDeep else .ok g.pushed := by
  rw [push, bind_of_ok (emit_eq (by decide) g)]
  by_cases h : g.depth + 1 > maxDepth
  · rw [if_pos h]
    exact (if_pos h).trans rfl
  · rw [if_neg h]
    exact (if_neg h).trans rfl

theorem pop_eq {depth : Nat} (h : g.depth = depth + 1) :
    g.pop = .ok ((g.extend [.instr (.pop .rcx)] g.progress).atDepth depth) := by
  rw [pop, if_neg (by omega), bind_of_ok (emit_eq (by decide) g), depth_extend, h]
  rfl

/-- Whether compiling an expression appends its pieces, and fails for the reason for which it has none. -/
def Appends (e : Expr) : Prop :=
  ∀ g : Draft, g.Bounded → compile e g = (fun r => g.extend r.1 r.2) <$> body g.depth e g.progress

theorem Appends.int (pos : Position) (literal : String) (v : Int64) : Appends (.int pos literal v) :=
  fun g _ => emit_eq (Instr.encodable_mov (by decide) v) g

theorem Appends.ident (pos : Position) (name : String) : Appends (.ident pos name) := by
  intro g _
  have hload : (Instr.load .rax .rbp (frameOffset (g.names.idxOf name))).Encodable :=
    ⟨by decide, by decide, by decide⟩
  rw [compile, body]
  change _ = _ <$> (if g.defined.contains name then _ else _)
  split_ifs
  · exact emit_eq hload g
  · rfl

theorem Appends.binary {l r : Expr} (hl : Appends l) (hr : Appends r) (pos : Position) (op : UInt8) :
    Appends (.binary l pos op r) := by
  intro g hg
  rw [compile, body]
  cases Operator.ofNumber? op with
  | none => rfl
  | some o =>
      dsimp only
      by_cases hi : l.interferes r = true
      · rw [if_pos hi, if_pos hi]
        rfl
      · rw [if_neg hi, if_neg hi, hr g hg]
        refine bind_map_eq_map_bind fun out => ?_
        obtain ⟨right, q⟩ := out
        rw [push_eq, depth_extend]
        by_cases hd : g.depth + 1 > maxDepth
        · simp only [if_pos hd]
          rfl
        · simp only [if_neg hd]
          change compile l (g.extend right q).pushed >>= _ = _
          rw [hl _ (hg.extend right q).pushed]
          refine bind_map_eq_map_bind fun out => ?_
          obtain ⟨left, p⟩ := out
          have hleft := ((hg.extend right q).pushed.extend left p).extend [.instr (.pop .rcx)] p
          dsimp only
          rw [bind_of_ok (pop_eq rfl), progress_extend, operate_eq (hleft.atDepth _)]
          simp only [pushed, extend_atDepth, atDepth_atDepth, extend_extend]
          rfl

theorem Appends.assign {v : Expr} (hv : Appends v) (pos eqPos : Position) (name : String) :
    Appends (.assign pos name eqPos v) := by
  intro g hg
  rw [compile, body, hv g hg]
  refine bind_map_eq_map_bind fun out => ?_
  obtain ⟨value, q⟩ := out
  generalize hslot : (Layout.add q.names name).idxOf name = slot
  have hstores : ∀ i ∈ [Instr.store .rbp (frameOffset slot) .rax, .storeImm .rdi (flagOffset slot) 1],
      i.Encodable := by
    simp only [List.forall_mem_cons]
    exact ⟨⟨by decide, by decide, by decide⟩, ⟨by decide, by decide⟩, by simp⟩
  change (if (Layout.add q.names name).idxOf name ≥ maxSlots then _ else _) = _
  simp only [hslot]
  by_cases hs : slot ≥ maxSlots
  · simp only [if_pos hs]
    rfl
  · simp only [if_neg hs]
    change (g.extend value { q with names := Layout.add q.names name }).emitAll
      [.store .rbp (frameOffset ((Layout.add q.names name).idxOf name)) .rax,
        .storeImm .rdi (flagOffset ((Layout.add q.names name).idxOf name)) 1] >>= _ = _
    rw [hslot, bind_of_ok (emitAll_eq hstores _), extend_extend]
    rfl

theorem Appends.cond {c y n : Expr} (hc : Appends c) (hy : Appends y) (hn : Appends n) (pos lparen rparen : Position) :
    Appends (.cond pos lparen c y n rparen) := by
  intro g hg
  rw [compile, body, hc g hg]
  refine bind_map_eq_map_bind fun out => ?_
  obtain ⟨test, q₁⟩ := out
  dsimp only
  rw [bind_of_ok (emit_eq (by decide) _), extend_extend, progress_extend, jcc, bind_of_ok (branch_eq (by decide) _)]
  have htest : (g.extend (test ++ [.instr (.test .rax .rax)]) q₁).Bounded := hg.extend _ _
  dsimp only
  rw [hy _ (htest.await (by decide)), depth_await, depth_extend, progress_await, progress_extend]
  refine bind_map_eq_map_bind fun out => ?_
  obtain ⟨yes, q₂⟩ := out
  dsimp only
  have hdefined : ((g.extend (test ++ [.instr (.test .rax .rax)]) q₁).await (.jcc .equal 0)).defined = q₁.defined :=
    rfl
  rw [extend_defined, hdefined, jmp, bind_of_ok (branch_eq (by decide) _)]
  dsimp only
  rw [bind_of_ok (land_await_await htest (encode_jcc .equal) _ (by decide)), extend_extend,
    hn _ ((hg.extend _ _).await (by decide)), depth_await, depth_extend, progress_await, progress_extend]
  refine bind_map_eq_map_bind fun out => ?_
  obtain ⟨no, q₃⟩ := out
  dsimp only
  rw [site_await_extend (encode_jcc .equal), extend_extend, bind_of_ok (land_await (hg.extend _ _) encode_jmp),
    extend_extend]
  have hchoice (i j : Instr) : test ++ [.instr (.test .rax .rax)] ++ .instr i :: yes ++ .instr j :: no
      = test ++ (pieces [.test .rax .rax, i] ++ yes ++ pieces [j] ++ no) := by
    simp [pieces]
  rw [hchoice]
  rfl

theorem compile_eq (e : Expr) : Appends e := by
  induction e using Expr.nodeInduction with
  | int pos literal v => exact .int pos literal v
  | ident pos name => exact .ident pos name
  | binary l pos op r ihl ihr => exact ihl.binary ihr pos op
  | assign pos name eqPos v ih => exact ih.assign pos eqPos name
  | call => exact fun _ _ => rfl
  | cond pos lparen c y n rparen ihc ihy ihn => exact ihc.cond ihy ihn pos lparen rparen

end

/-! ### The exit -/

/-- Patching the jumps to the exit closes the pieces. -/
theorem patch_exits {g : Draft} {before : Bytes} {ps : List Piece} {exit : Nat}
    (hcode : g.code.bytes = before ++ openBytes ps) (hpending : g.pending = exitSites before.length ps)
    (hexit : exit = g.size) :
    (exitSites before.length ps).foldlM (fun g site => g.patch site exit) g
      = .ok { g with code := ⟨before ++ encodeAll (close ps)⟩, pending := [] } := by
  induction ps generalizing g before with
  | nil =>
      rw [exitSites] at hpending ⊢
      rw [List.foldlM_nil, ← hpending]
      exact congrArg (fun bytes => Except.ok { g with code := ⟨bytes⟩ }) hcode
  | cons q ps ih =>
      cases q with
      | instr i =>
          have hlength : (before ++ i.encode).length = before.length + i.size := List.length_append
          rw [openBytes_instr, ← List.append_assoc] at hcode
          rw [exitSites, ← hlength] at hpending ⊢
          rw [ih hcode hpending hexit, close, encodeAll_cons, List.append_assoc]
      | exit =>
          have hsite : before.length + 1 = (before ++ [0xE9]).length := by simp
          rw [openBytes_exit, ← List.append_assoc, ← List.append_assoc] at hcode
          rw [exitSites, hsite] at hpending ⊢
          have hland := land_eq hcode (hpending.trans (List.nil_append _).symm) List.not_mem_nil fun hs => by
            have := (exitSites_bounds hs).1
            omega
          rw [land, ← hexit, length_openBytes, List.append_assoc before, ← encode_jmp] at hland
          rw [List.foldlM_cons, bind_of_ok hland]
          generalize hjump : before ++ (Instr.jmp (Int32.ofNat (piecesSize ps))).encode = front
          have hlength : front.length = before.length + 5 := hjump ▸ List.length_append
          rw [← hlength, ih rfl rfl ?_, close, encodeAll_cons, ← List.append_assoc, hjump]
          have hfield : (Instr.field 0).length = 4 := rfl
          rw [hexit, size, size, hcode]
          simp only [List.length_append, List.length_singleton, hfield, hlength]

theorem finish_eq (names defined : List String) (ps : List Piece) (p : Progress) :
    (extend { names := names, defined := defined } ps p).finish
      = .ok { extend { names := names, defined := defined } ps p with
        code := ⟨encodeAll (close (ps ++ pieces (copyBack p.names.length)) ++ epilogue)⟩, pending := [] } := by
  have hcopied := emitAll_eq (copyBack_encodable p.names.length) (extend { names := names, defined := defined } ps p)
  rw [extend_extend, progress_extend] at hcopied
  generalize hall : ps ++ pieces (copyBack p.names.length) = all at hcopied
  have hsites : exitSites 0 all = exitSites 0 ps := by
    rw [← hall, exitSites_append, exitSites_pieces, List.append_nil]
  have hpatched := patch_exits (g := extend { names := names, defined := defined } all p) (List.nil_append _).symm rfl
    rfl
  rw [finish]
  refine (bind_of_ok hcopied _).trans ((bind_of_ok hpatched _).trans ?_)
  rw [bind_of_ok (emitAll_eq epilogue_encodable _), encodeAll_append]
  have hsize : size { names := names, defined := defined } = 0 := rfl
  simp only [extend, progress, exitSites_pieces, List.append_nil, List.isEmpty_nil, Bool.not_true, Bool.false_eq_true,
    if_false, hsize, hsites]
  rfl

end Draft

/-! ### Whole routines -/

/-- The routine that is written is the one that is put together from pieces, and it fails for the same reason. -/
theorem write_eq_compose (e : Expr) (seeds : List String) : write e seeds = compose e seeds := by
  have hstart : Draft.Bounded { names := (Layout.ofSeeds seeds).names, defined := (Layout.ofSeeds seeds).names } := by
    intro site hs
    cases hs
  rw [write, compose, Draft.compile_eq e _ hstart, bind_map_left]
  refine congrArg (body 0 e _ >>= ·) (funext fun out => ?_)
  obtain ⟨ps, p⟩ := out
  dsimp only
  rw [if_neg (by simp [Draft.extend])]
  by_cases hslots : p.names.length > maxSlots
  · refine (if_pos hslots).trans (Eq.trans ?_ (if_pos hslots).symm)
    rfl
  · refine (if_neg hslots).trans (Eq.trans ?_ (if_neg hslots).symm)
    have hfront := Buffer.foldlM_emit (prologue_encodable p.names.length) {}
    rw [bind_of_ok (Draft.finish_eq _ _ ps p)]
    change (((prologue p.names.length).foldlM Buffer.emit {}).mapError _ >>= _) = _
    rw [hfront, assemble, List.append_assoc, encodeAll_append (prologue p.names.length)]
    rfl

theorem compose_eq_ok {e : Expr} {seeds : List String} {r : Routine} (h : compose e seeds = .ok r) :
    ∃ ps p, body 0 e ⟨(Layout.ofSeeds seeds).names, (Layout.ofSeeds seeds).names, 0⟩ = .ok (ps, p) ∧
      p.names.length ≤ maxSlots ∧
      r = ⟨encodeAll (assemble p.names.length ps), ⟨p.names, (Layout.ofSeeds seeds).seeds⟩, 0, p.deepest⟩ := by
  obtain ⟨⟨ps, p⟩, hbody, h⟩ := ok_of_bind h
  dsimp only at h
  split at h
  · cases h
  · rename_i hslots
    exact ⟨ps, p, hbody, by omega, (Except.ok.inj h).symm⟩

theorem write_of_body {e : Expr} {seeds : List String} {ps : List Piece} {p : Progress}
    (h : body 0 e ⟨(Layout.ofSeeds seeds).names, (Layout.ofSeeds seeds).names, 0⟩ = .ok (ps, p))
    (hslots : p.names.length ≤ maxSlots) :
    write e seeds
      = .ok ⟨encodeAll (assemble p.names.length ps), ⟨p.names, (Layout.ofSeeds seeds).seeds⟩, 0, p.deepest⟩ := by
  rw [write_eq_compose, compose, bind_of_ok h]
  exact if_neg (by omega)

theorem generate_eq_ok {e : Expr} {seeds : List String} {r : Routine} (h : generate e seeds = .ok r) :
    ∃ ps p, body 0 e ⟨(Layout.ofSeeds seeds).names, (Layout.ofSeeds seeds).names, 0⟩ = .ok (ps, p) ∧
      p.names.length ≤ maxSlots ∧
      r = ⟨encodeAll (assemble p.names.length ps), ⟨p.names, (Layout.ofSeeds seeds).seeds⟩, 0, p.deepest⟩ := by
  unfold generate at h
  split at h
  · cases h
  · obtain ⟨r', hwrite, h⟩ := ok_of_bind h
    split at h
    · cases h
    · obtain rfl := Except.ok.inj h
      exact compose_eq_ok (write_eq_compose e seeds ▸ hwrite)

/-! ### Shapes -/

theorem write_shape (e : Expr) (seeds : List String) :
    (write e.shape seeds).toOption = (write e seeds).toOption := by
  rw [write_eq_compose, write_eq_compose, compose, compose, toOption_bind, toOption_bind, body_shape]

theorem generate_shape (e : Expr) (seeds : List String) :
    (generate e.shape seeds).toOption = (generate e seeds).toOption := by
  rw [generate, generate, Expr.callFree_shape]
  split_ifs
  · rfl
  · rw [toOption_bind, toOption_bind, write_shape]

/-- Expressions of the same shape have the same routines. -/
theorem generate_congr {e f : Expr} (h : e.shape = f.shape) {seeds : List String} {r : Routine}
    (hr : generate e seeds = .ok r) : generate f seeds = .ok r := by
  have hf : (generate f seeds).toOption = some r := by
    rw [← generate_shape, ← h, generate_shape, hr]
    rfl
  exact ok_of_toOption hf

end Routine

end TierCalc
