import TierCalc.Proofs.Routine.Safety

/-!
# What acceptance says about all paths

The paths through a piece of code are given by its instructions alone, whatever is executed: a conditional branch goes
both ways. `Sound` says what is true of all instructions on the paths from an entry if verification accepts the code:
paths stay on instructions, branches were patched, operands in memory are in bounds, at most one frame is set up, and
every offset has one depth.

The invariant is `Touring`: what was visited is on a path, and where a visit leads was visited at the depth that it
leaves, or is still to be. With nothing left to be visited the visits are all that is on a path
(`Touring.visit_of_onPath`).

Displacements are the exception. The size of the lowest one overflows, so that a word far below the frame is accepted.
-/

namespace TierCalc.X64

/-! ### Instructions and their offsets -/

section
variable {code : Bytes} {placed : List Placed}

theorem eq_of_offset (h : decodeAll code = .ok placed) {p q : Placed} (hp : p ∈ placed) (hq : q ∈ placed)
    (hoffset : p.offset = q.offset) : p = q := by
  have hfetch := Program.fetch?_of_decodeAll h hp
  rw [hoffset, Program.fetch?_of_decodeAll h hq] at hfetch
  cases p
  cases q
  simp_all

theorem eq_nil_of_decodeFrom {bs : Bytes} {offset : Nat} (h : decodeFrom offset bs = .ok []) : bs = [] := by
  cases bs with
  | nil => rfl
  | cons b rest =>
      rw [decodeFrom] at h
      split at h
      · cases h
      · rename_i i tail hdecode
        cases hps : decodeFrom (offset + i.size) tail with
        | error e =>
            rw [hps] at h
            cases h
        | ok ps =>
            rw [hps] at h
            cases h

theorem stop_of_decodeFrom {bs : Bytes} {offset : Nat} (h : decodeFrom offset bs = .ok placed) {p : Placed}
    (hp : placed.getLast? = some p) : offset + bs.length ≤ p.stop := by
  fun_induction decodeFrom offset bs generalizing placed with
  | case1 =>
      cases h
      cases hp
  | case2 => cases h
  | case3 offset b rest i tail hdecode ih =>
      have hlength := congrArg List.length (Instr.drop_of_decode hdecode)
      rw [List.length_drop] at hlength
      cases hrest : decodeFrom (offset + i.size) tail with
      | error e =>
          rw [hrest] at h
          cases h
      | ok ps =>
          rw [hrest] at h
          cases h
          cases ps with
          | nil =>
              rw [eq_nil_of_decodeFrom hrest, List.length_nil] at hlength
              obtain rfl : ⟨offset, i⟩ = p := by simpa using hp
              change offset + _ ≤ offset + i.size
              omega
          | cons q ps =>
              have hstop := ih hrest (by simpa using hp)
              omega

theorem stop_of_getLast? (h : decodeAll code = .ok placed) {p : Placed} (hp : placed.getLast? = some p) :
    code.length ≤ p.stop := by
  have hstop := stop_of_decodeFrom h hp
  omega

end

end TierCalc.X64

namespace TierCalc.Routine

open X64 Verify

/-! ### Paths -/

/-- Where control may go after an instruction. -/
def exits (p : Placed) : List Int :=
  match p.instr with
  | .ret => []
  | .jmp _ => [p.target]
  | .jcc _ _ => [(p.stop : Int), p.target]
  | _ => [(p.stop : Int)]

/-- The offsets on the paths from an entry. -/
inductive OnPath (placed : List Placed) (entry : Int) : Int → Prop where
  | entry : OnPath placed entry entry
  | step {p : Placed} {o : Int} (h : OnPath placed entry p.offset) (hp : p ∈ placed) (ho : o ∈ exits p) :
      OnPath placed entry o

/-- The depth that an instruction leaves, where the frame was set up at a depth. -/
def depthAfter (frame depth : Int) : Instr → Int
  | .push _ => depth + 1
  | .pop _ => depth - 1
  | .movReg d s => if d = .rsp ∧ s = .rbp then frame else depth
  | .subImm r imm => if r = .rsp then depth + imm.toInt / 8 else depth
  | .addImm r imm => if r = .rsp then depth - imm.toInt / 8 else depth
  | _ => depth

/-- The instructions on the paths from an entry. -/
structure Live (placed : List Placed) (entry : Int) (p : Placed) : Prop where
  mem : p ∈ placed
  onPath : OnPath placed entry p.offset

/-- Whether a displacement off a register is one of a whole word of the block, or of one of the words that an
instruction on a path takes for the frame. -/
def InBounds (placed : List Placed) (entry : Int) (blockWords : Nat) (base : Reg) (disp : Int32) : Prop :=
  8 ∣ disp.toInt ∧
    (base = .rbp ∧ (∃ q imm words, Live placed entry q ∧ q.instr = .subImm .rsp imm ∧ imm.toInt = 8 * words ∧
        -(8 * words) ≤ disp.toInt ∧ disp.toInt ≤ -8) ∨
      base = .rdi ∧ 0 ≤ disp.toInt ∧ disp.toInt < 8 * blockWords)

/-- Whether the depths of all offsets on the paths agree: nothing is on the stack at the entry and at a return, and each
instruction changes the depth by what it puts there or takes away. What tears a frame down goes back to the depth at
which one was set up. -/
structure Consistent (placed : List Placed) (entry : Int) (depth : Int → Int) (frame : Int) : Prop where
  start : depth entry = 0
  ret : ∀ p, Live placed entry p → p.instr = .ret → depth p.offset = 0
  setUp : ∀ p, Live placed entry p → p.instr = .movReg .rbp .rsp → depth p.offset = frame
  tearDown : ∀ p, Live placed entry p → p.instr = .movReg .rsp .rbp →
    ∃ q, Live placed entry q ∧ q.instr = .movReg .rbp .rsp
  adjust : ∀ p imm, Live placed entry p → p.instr = .subImm .rsp imm ∨ p.instr = .addImm .rsp imm → 8 ∣ imm.toInt
  edge : ∀ p, Live placed entry p → ∀ o ∈ exits p, depth o = depthAfter frame (depth p.offset) p.instr

/-- What is true of the paths through code that is accepted. -/
structure Sound (placed : List Placed) (entry : Int) (blockWords : Nat) : Prop where
  starts : ∀ o, OnPath placed entry o → ∃ p ∈ placed, (p.offset : Int) = o
  last : ∀ p, Live placed entry p → placed.getLast? = some p → p.instr = .ret ∨ ∃ d, p.instr = .jmp d
  patched : ∀ p, Live placed entry p → p.instr.branch? ≠ none → p.target ≠ p.stop
  memory : ∀ p b o, Live placed entry p → p.instr.memory? = some (b, o) → (b = .rbp → o ≠ Int32.minValue) →
    InBounds placed entry blockWords b o
  once : ∀ p q, Live placed entry p → Live placed entry q → p.instr = .movReg .rbp .rsp →
    q.instr = .movReg .rbp .rsp → p = q
  consistent : ∃ depth frame, Consistent placed entry depth frame

/-! ### Visits -/

/-- Whether a visit sets the frame up. -/
def SetsUp (v : Visit) : Prop := v.placed.instr = .movReg .rbp .rsp

/-- Whether facts about the frame come from visits: its depth from one that set it up, and its words from one that
took them. -/
structure Known (visits : List Visit) (f : FrameFacts) : Prop where
  depth : ∀ d, f.depth = some d → ∃ v ∈ visits, SetsUp v ∧ v.depth = d
  locals : f.locals = 0 ∨ ∃ v ∈ visits, ∃ imm, v.placed.instr = .subImm .rsp imm ∧ imm.toInt = 8 * f.locals

/-- Whether a visit is on a path and was accepted. -/
structure Granted (placed : List Placed) (entry : Int) (size blockWords : Nat) (v : Visit) : Prop where
  live : Live placed entry v.placed
  effect : Effect blockWords v.before v.depth v.placed v.placed.instr (v.after, v.left)
  successors : successors size v.placed = .ok v.next

/-- Whether an offset has been visited at a depth, or is still to be. -/
def Due (visits : List Visit) (work : List (Int × Int)) (offset depth : Int) : Prop :=
  (∃ v ∈ visits, (v.placed.offset : Int) = offset ∧ v.depth = depth) ∨ (offset, depth) ∈ work

/-- Whether the depths on record are those of the visits. -/
structure Booked (visits : List Visit) (depths : List (Int × Int)) : Prop where
  recorded : ∀ v ∈ visits, depths.lookup (v.placed.offset : Int) = some v.depth
  seen : ∀ o d, depths.lookup o = some d → ∃ v ∈ visits, (v.placed.offset : Int) = o ∧ v.depth = d

/-- Whether at most one visit set a frame up, and facts are known from the visits. -/
structure Framed (visits : List Visit) (f : FrameFacts) : Prop where
  facts : Known visits f
  once : ∀ v ∈ visits, ∀ w ∈ visits, SetsUp v → SetsUp w → v = w
  unframed : f.depth = none → ∀ v ∈ visits, ¬ SetsUp v

/-- What is true while paths are followed. -/
structure Touring (placed : List Placed) (entry : Int) (size blockWords : Nat) (visits : List Visit)
    (fresh : List Placed) (depths : List (Int × Int)) (f : FrameFacts) (work : List (Int × Int)) : Prop where
  fresh : ∀ p ∈ fresh, p ∈ placed
  granted : ∀ v ∈ visits, Granted placed entry size blockWords v
  known : ∀ v ∈ visits, Known visits v.before
  booked : Booked visits depths
  framed : Framed visits f
  ahead : ∀ o d, (o, d) ∈ work → OnPath placed entry o
  start : Due visits work entry 0
  onward : ∀ v ∈ visits, ∀ o ∈ v.next, Due visits work o v.left

section
variable {placed fresh : List Placed} {entry offset depth : Int} {size blockWords : Nat} {visits : List Visit}
  {depths work rest : List (Int × Int)} {f f' : FrameFacts} {p : Placed} {v : Visit} {next : List Int} {left : Int}

theorem Known.cons (h : Known visits f) (v : Visit) : Known (v :: visits) f := by
  refine ⟨fun d hd => ?_, h.locals.imp_right ?_⟩
  · obtain ⟨w, hw, hup⟩ := h.depth d hd
    exact ⟨w, List.mem_cons_of_mem v hw, hup⟩
  · rintro ⟨w, hw, htakes⟩
    exact ⟨w, List.mem_cons_of_mem v hw, htakes⟩

theorem Known.visit (h : Known visits f) (heffect : Effect blockWords f depth p p.instr (f', left)) :
    Known (⟨p, depth, f, f', left, next⟩ :: visits) f' := by
  have hkeep := h.cons ⟨p, depth, f, f', left, next⟩
  generalize hi : p.instr = i at heffect
  cases heffect with
  | establish =>
      refine ⟨fun d hd => ⟨_, List.mem_cons_self, hi, Option.some.inj hd⟩, .inl rfl⟩
  | allocate himm => exact ⟨hkeep.depth, .inr ⟨_, List.mem_cons_self, _, hi, himm⟩⟩
  | _ => exact hkeep

theorem Verify.Effect.unframed_of_setUp {out : FrameFacts × Int}
    (h : Effect blockWords f depth p (.movReg .rbp .rsp) out) : f.depth = none := by
  cases h with
  | establish hnone => exact hnone
  | move _ _ hbp => exact absurd rfl hbp
  | memory hm => cases hm
  | silent hsilent => cases hsilent

/-- A frame that is set up stays, and only an instruction that sets one up makes a difference. -/
theorem Verify.Effect.depth_eq_none {i : Instr} (h : Effect blockWords f depth p i (f', left))
    (hnone : f'.depth = none) : f.depth = none ∧ i ≠ .movReg .rbp .rsp := by
  cases h with
  | establish => cases hnone
  | move _ _ hbp => exact ⟨hnone, fun heq => hbp (Instr.movReg.inj heq).1⟩
  | tearDown => exact ⟨hnone, by decide⟩
  | memory hm =>
      refine ⟨hnone, ?_⟩
      rintro rfl
      cases hm
  | silent hsilent =>
      refine ⟨hnone, ?_⟩
      rintro rfl
      cases hsilent
  | _ => exact ⟨hnone, Instr.noConfusion⟩

/-- An instruction sets a frame up only if none was set up before. -/
theorem Framed.visit (h : Framed visits f) (heffect : Effect blockWords f depth p p.instr (f', left)) :
    Framed (⟨p, depth, f, f', left, next⟩ :: visits) f' := by
  have hfirst (hup : p.instr = .movReg .rbp .rsp) : ∀ v ∈ visits, ¬ SetsUp v := by
    rw [hup] at heffect
    exact h.unframed heffect.unframed_of_setUp
  refine ⟨h.facts.visit heffect, ?_, ?_⟩
  · intro v hv w hw hvup hwup
    rcases List.mem_cons.mp hv with rfl | hv <;> rcases List.mem_cons.mp hw with rfl | hw
    · rfl
    · exact absurd hwup (hfirst hvup w hw)
    · exact absurd hvup (hfirst hwup v hv)
    · exact h.once v hv w hw hvup hwup
  · intro hnone
    obtain ⟨hbefore, hne⟩ := heffect.depth_eq_none hnone
    exact List.forall_mem_cons.mpr ⟨hne, h.unframed hbefore⟩

/-- The depth at which the frame was set up, on all paths. -/
theorem Framed.depth_eq (h : Framed visits f) (hv : v ∈ visits) (hup : SetsUp v) : v.depth = f.depth.getD 0 := by
  cases hdepth : f.depth with
  | none => exact absurd hup (h.unframed hdepth v hv)
  | some d =>
      obtain ⟨w, hw, hwup, hwd⟩ := h.facts.depth d hdepth
      rw [h.once v hv w hw hup hwup]
      exact hwd

theorem Booked.visit (h : Booked visits depths) (hlook : depths.lookup (v.placed.offset : Int) = none) :
    Booked (v :: visits) ((↑v.placed.offset, v.depth) :: depths) := by
  refine ⟨List.forall_mem_cons.mpr ⟨?_, fun w hw => ?_⟩, fun o d hlookup => ?_⟩
  · rw [List.lookup_cons, beq_self_eq_true]
  · have hne : (w.placed.offset : Int) ≠ v.placed.offset := by
      intro heq
      have hrecorded := h.recorded w hw
      rw [heq, hlook] at hrecorded
      cases hrecorded
    rw [List.lookup_cons, beq_eq_false_iff_ne.mpr hne]
    exact h.recorded w hw
  · rw [List.lookup_cons] at hlookup
    by_cases ho : o = v.placed.offset
    · rw [ho, beq_self_eq_true] at hlookup
      exact ⟨v, List.mem_cons_self, ho.symm, Option.some.inj hlookup⟩
    · rw [beq_eq_false_iff_ne.mpr ho] at hlookup
      obtain ⟨w, hw, hmet⟩ := h.seen o d hlookup
      exact ⟨w, List.mem_cons_of_mem v hw, hmet⟩

theorem Due.visit {o d : Int} (h : Due visits ((↑v.placed.offset, v.depth) :: rest) o d) (more : List (Int × Int)) :
    Due (v :: visits) (more ++ rest) o d := by
  rcases h with ⟨w, hw, hmet⟩ | hmem
  · exact .inl ⟨w, List.mem_cons_of_mem v hw, hmet⟩
  · rcases List.mem_cons.mp hmem with heq | hmem
    · cases heq
      exact .inl ⟨v, List.mem_cons_self, rfl, rfl⟩
    · exact .inr (List.mem_append_right _ hmem)

theorem next_eq_exits (h : successors size p = .ok next) : next = exits p := by
  unfold exits
  rcases successors_cases h with ⟨hi, rfl⟩ | ⟨d, hi, rfl⟩ | ⟨c, d, hi, rfl⟩ | ⟨hret, hbranch, rfl⟩
  · rw [hi]
  · rw [hi]
  · rw [hi]
  · split
    · contradiction
    · rename_i hi
      rw [hi] at hbranch
      cases hbranch
    · rename_i hi
      rw [hi] at hbranch
      cases hbranch
    · rfl

/-- A path that leads to a visited instruction ends there. -/
theorem Touring.skip (h : Touring placed entry size blockWords visits fresh depths f ((offset, depth) :: rest))
    (hseen : depths.lookup offset = some depth) : Touring placed entry size blockWords visits fresh depths f rest := by
  have hdue {o d : Int} (ho : Due visits ((offset, depth) :: rest) o d) : Due visits rest o d := by
    rcases ho with hmet | hmem
    · exact .inl hmet
    · rcases List.mem_cons.mp hmem with heq | hmem
      · cases heq
        exact .inl (h.booked.seen _ _ hseen)
      · exact .inr hmem
  exact
    { h with
      ahead := fun o d hmem => h.ahead o d (List.mem_cons_of_mem _ hmem)
      start := hdue h.start
      onward := fun v hv o ho => hdue (h.onward v hv o ho) }

theorem Touring.visit (h : Touring placed entry size blockWords visits fresh depths f ((offset, depth) :: rest))
    (hlook : depths.lookup offset = none) (hp : fresh.find? (fun p => p.offset == offset) = some p)
    (heffect : effect blockWords f depth p = .ok (f', left)) (hnext : successors size p = .ok next) :
    Touring placed entry size blockWords (⟨p, depth, f, f', left, next⟩ :: visits) (fresh.erase p)
      ((offset, depth) :: depths) f' (next.map (·, left) ++ rest) := by
  obtain rfl : (p.offset : Int) = offset := by simpa using List.find?_some hp
  have hlive : Live placed entry p := ⟨h.fresh p (List.mem_of_find?_eq_some hp), h.ahead _ depth List.mem_cons_self⟩
  have heff := effect_cases heffect
  refine
    { fresh := fun q hq => h.fresh q (List.mem_of_mem_erase hq)
      granted := List.forall_mem_cons.mpr ⟨⟨hlive, heff, hnext⟩, h.granted⟩
      known := List.forall_mem_cons.mpr ⟨h.framed.facts.cons _, fun v hv => (h.known v hv).cons _⟩
      booked := h.booked.visit hlook
      framed := h.framed.visit heff
      ahead := ?_
      start := h.start.visit _
      onward := List.forall_mem_cons.mpr ⟨?_, fun v hv o ho => (h.onward v hv o ho).visit _⟩ }
  · intro o d hmem
    rcases List.mem_append.mp hmem with hmem | hmem
    · obtain ⟨o', ho, heq⟩ := List.mem_map.mp hmem
      cases heq
      exact .step hlive.onPath hlive.mem (next_eq_exits hnext ▸ ho)
    · exact h.ahead o d (List.mem_cons_of_mem _ hmem)
  · intro o ho
    exact .inr (List.mem_append_left _ (List.mem_map.mpr ⟨o, ho, rfl⟩))

/-- Paths that were followed to their ends leave nothing to be visited. -/
theorem Touring.explore (h : Touring placed entry size blockWords visits fresh depths f work)
    (hok : explore size blockWords fresh depths f work = .ok ()) :
    ∃ visits fresh depths f, Touring placed entry size blockWords visits fresh depths f [] := by
  fun_induction Verify.explore size blockWords fresh depths f work generalizing visits with
  | case1 fresh depths f => exact ⟨visits, fresh, depths, f, h⟩
  | case2 => cases hok
  | case3 fresh depths f offset depth rest other hlook heq ih =>
      obtain rfl := not_not.mp heq
      exact ih (h.skip hlook) hok
  | case4 => cases hok
  | case5 => cases hok
  | case6 => cases hok
  | case7 fresh depths f offset depth rest hlook p hfind f' left heffect next hnext ih =>
      exact ih (h.visit hlook hfind heffect hnext) hok

theorem touring_start (placed : List Placed) (entry : Int) (size blockWords : Nat) :
    Touring placed entry size blockWords [] placed [] {} [(entry, 0)] :=
  { fresh := fun _ hp => hp
    granted := by simp
    known := by simp
    booked := ⟨by simp, by simp⟩
    framed := ⟨⟨by simp, .inl rfl⟩, by simp, by simp⟩
    ahead := by
      intro o d hmem
      cases List.mem_singleton.mp hmem
      exact .entry
    start := .inr List.mem_cons_self
    onward := by simp }

/-! ### All that is on a path -/

/-- With nothing left to be visited, every offset on a path was visited. -/
theorem Touring.visit_of_onPath {code : Bytes} (hplaced : decodeAll code = .ok placed)
    (h : Touring placed entry size blockWords visits fresh depths f []) {o : Int} (ho : OnPath placed entry o) :
    ∃ v ∈ visits, (v.placed.offset : Int) = o := by
  have hmet {o d : Int} (hdue : Due visits [] o d) : ∃ v ∈ visits, (v.placed.offset : Int) = o := by
    rcases hdue with ⟨v, hv, hoffset, -⟩ | hmem
    · exact ⟨v, hv, hoffset⟩
    · cases hmem
  induction ho with
  | entry => exact hmet h.start
  | step _ hp ho ih =>
      obtain ⟨v, hv, hoffset⟩ := ih
      have hgranted := h.granted v hv
      obtain rfl := eq_of_offset hplaced hgranted.live.mem hp (Int.ofNat_inj.mp hoffset)
      exact hmet (h.onward v hv _ (next_eq_exits hgranted.successors ▸ ho))

theorem Touring.visit_of_live {code : Bytes} (hplaced : decodeAll code = .ok placed)
    (h : Touring placed entry size blockWords visits fresh depths f []) (hp : Live placed entry p) :
    ∃ v ∈ visits, v.placed = p := by
  obtain ⟨v, hv, hoffset⟩ := h.visit_of_onPath hplaced hp.onPath
  exact ⟨v, hv, eq_of_offset hplaced (h.granted v hv).live.mem hp.mem (Int.ofNat_inj.mp hoffset)⟩

/-! ### What single instructions are accepted for -/

theorem ends_of_successors (h : successors size p = .ok next) (hstop : size ≤ p.stop) :
    p.instr = .ret ∨ ∃ d, p.instr = .jmp d := by
  unfold successors at h
  dsimp only at h
  rw [if_pos hstop] at h
  split at h
  · rename_i hi
    exact .inl hi
  · rename_i d hi
    exact .inr ⟨d, hi⟩
  · split_ifs at h
    cases h
  · cases h

theorem patched_of_successors (h : successors size p = .ok next) (hbranch : p.instr.branch? ≠ none) :
    p.target ≠ p.stop := by
  intro htarget
  unfold successors at h
  dsimp only at h
  cases hi : p.instr with
  | jmp d | jcc c d =>
      simp only [hi, if_pos htarget] at h
      cases h
  | _ =>
      rw [hi] at hbranch
      exact hbranch rfl

theorem dvd_of_mod {o : Int32} (h : o % 8 = 0) : 8 ∣ o.toInt := Int.dvd_of_tmod_eq_zero (tmod_of_mod h)

/-- An operand that is accepted is in bounds, unless it has the lowest displacement off the frame. -/
theorem Touring.inBounds (h : Touring placed entry size blockWords visits fresh depths f work)
    (hv : v ∈ visits) {b : Reg} {o : Int32} (hm : v.placed.instr.memory? = some (b, o))
    (hne : b = .rbp → o ≠ Int32.minValue) : InBounds placed entry blockWords b o := by
  obtain ⟨haligned, ⟨rfl, -, hneg, hlocals⟩ | ⟨rfl, hnonneg, hlt⟩⟩ :=
    checkMemory_cases ((h.granted v hv).effect.checked_of_memory hm)
  · obtain ⟨ho, hone⟩ := words_of_neg haligned hneg (hne rfl)
    refine ⟨dvd_of_mod haligned, .inl ⟨rfl, ?_⟩⟩
    rcases (h.known v hv).locals with hzero | ⟨w, hw, imm, hi, himm⟩
    · omega
    · exact ⟨w.placed, imm, _, (h.granted w hw).live, hi, himm, by omega, by omega⟩
  · obtain ⟨ho, hzero⟩ := words_of_nonneg haligned hnonneg
    exact ⟨dvd_of_mod haligned, .inr ⟨rfl, by omega, by omega⟩⟩

/-- What an instruction leaves on the stack, if the frame stands at a depth. -/
theorem Verify.Effect.left_eq {i : Instr} (h : Effect blockWords f depth p i (f', left)) {frame : Int}
    (hframe : ∀ d, f.depth = some d → d = frame) : left = depthAfter frame depth i := by
  cases h with
  | push | pop | ret => rfl
  | establish => simp [depthAfter, Reg.rbp, Reg.rsp]
  | tearDown hd => simp [depthAfter, hframe _ hd]
  | move _ hsp => simp [depthAfter, hsp]
  | allocate himm =>
      simp only [depthAfter, if_true]
      omega
  | drop himm =>
      simp only [depthAfter, if_true]
      omega
  | memory hm =>
      cases i with
      | load | store | storeImm => rfl
      | _ => cases hm
  | silent hsilent =>
      cases i with
      | push | pop | movReg | load | store | storeImm | ret => cases hsilent
      | addImm | subImm => exact (if_neg hsilent).symm
      | _ => rfl

theorem Verify.Effect.aligned {i : Instr} {imm : Int32} (h : Effect blockWords f depth p i (f', left))
    (hi : i = .subImm .rsp imm ∨ i = .addImm .rsp imm) : 8 ∣ imm.toInt := by
  cases h with
  | allocate himm =>
      rcases hi with hi | hi
      · cases hi
        exact ⟨_, himm⟩
      · cases hi
  | drop himm =>
      rcases hi with hi | hi
      · cases hi
      · cases hi
        exact ⟨_, himm⟩
  | silent hsilent =>
      rcases hi with rfl | rfl
      · exact absurd rfl hsilent
      · exact absurd rfl hsilent
  | memory hm =>
      rcases hi with rfl | rfl
      · cases hm
      · cases hm
  | _ => rcases hi with hi | hi <;> cases hi

/-! ### Acceptance -/

theorem Touring.consistent {code : Bytes} (hplaced : decodeAll code = .ok placed)
    (h : Touring placed entry size blockWords visits fresh depths f []) :
    Consistent placed entry (fun o => (depths.lookup o).getD 0) (f.depth.getD 0) := by
  have hdepth {v : Visit} (hv : v ∈ visits) : (depths.lookup (v.placed.offset : Int)).getD 0 = v.depth := by
    rw [h.booked.recorded v hv]
    rfl
  have hdue {o d : Int} (hdue : Due visits [] o d) : (depths.lookup o).getD 0 = d := by
    rcases hdue with ⟨v, hv, rfl, rfl⟩ | hmem
    · exact hdepth hv
    · cases hmem
  refine ⟨hdue h.start, fun p hp hi => ?_, fun p hp hi => ?_, fun p hp hi => ?_, fun p imm hp hi => ?_,
    fun p hp o ho => ?_⟩
  all_goals
    obtain ⟨v, hv, rfl⟩ := h.visit_of_live hplaced hp
    have hgranted := h.granted v hv
    have heffect := hgranted.effect
  · rw [hi] at heffect
    exact (hdepth hv).trans heffect.depth_of_ret
  · exact (hdepth hv).trans (h.framed.depth_eq hv hi)
  · rw [hi] at heffect
    obtain ⟨d, hd⟩ := heffect.framed_of_tearDown
    obtain ⟨w, hw, hup, -⟩ := (h.known v hv).depth d hd
    exact ⟨w.placed, (h.granted w hw).live, hup⟩
  · exact heffect.aligned hi
  · have hleft := hdue (h.onward v hv o (next_eq_exits hgranted.successors ▸ ho))
    rw [hdepth hv]
    refine hleft.trans (heffect.left_eq fun d hd => ?_)
    obtain ⟨w, hw, hup, rfl⟩ := (h.known v hv).depth d hd
    exact h.framed.depth_eq hw hup

theorem Touring.sound {code : Bytes} (hplaced : decodeAll code = .ok placed)
    (h : Touring placed entry code.length blockWords visits fresh depths f []) : Sound placed entry blockWords := by
  refine ⟨fun o ho => ?_, fun p hp hlast => ?_, fun p hp hbranch => ?_, fun p b o hp hm hne => ?_,
    fun p q hp hq hpup hqup => ?_, _, _, h.consistent hplaced⟩
  · obtain ⟨v, hv, hoffset⟩ := h.visit_of_onPath hplaced ho
    exact ⟨v.placed, (h.granted v hv).live.mem, hoffset⟩
  · obtain ⟨v, hv, rfl⟩ := h.visit_of_live hplaced hp
    exact ends_of_successors (h.granted v hv).successors (stop_of_getLast? hplaced hlast)
  · obtain ⟨v, hv, rfl⟩ := h.visit_of_live hplaced hp
    exact patched_of_successors (h.granted v hv).successors hbranch
  · obtain ⟨v, hv, rfl⟩ := h.visit_of_live hplaced hp
    exact h.inBounds hv hm hne
  · obtain ⟨v, hv, rfl⟩ := h.visit_of_live hplaced hp
    obtain ⟨w, hw, rfl⟩ := h.visit_of_live hplaced hq
    rw [h.framed.once v hv w hw hpup hqup]

end

/-- Code that is accepted can be decoded, and all that is on the paths from its entry is as it should be; an operand may
be out of bounds only if it has the lowest displacement off the frame. -/
theorem verify_sound {code : Bytes} {layout : Layout} {entry : Int} (h : verify code layout entry = .ok ()) :
    ∃ placed, decodeAll code = .ok placed ∧ Sound placed entry (1 + 2 * layout.size) := by
  unfold verify at h
  split at h
  · cases h
  · cases h
  · rename_i placed _ hplaced
    obtain ⟨visits, fresh, depths, f, htour⟩ :=
      (touring_start placed entry code.length (Frame.words layout.size)).explore h
    exact ⟨placed, hplaced, htour.sound hplaced⟩

/-- The store of the code that copies a word is on the path on which the branch is not taken, and in bounds. -/
theorem copying_sound : verify (encodeAll copying) {} 0 = .ok () ∧ Sound (placedFrom 0 copying) 0 1 ∧
    Live (placedFrom 0 copying) 0 ⟨27, .store .rbp (-8) .rax⟩ ∧ InBounds (placedFrom 0 copying) 0 1 .rbp (-8) := by
  obtain ⟨placed, hplaced, hsound⟩ := verify_sound copying_verified
  obtain rfl := Except.ok.inj ((decodeAll_encodeAll (by decide)).symm.trans hplaced)
  have hnext (p : Placed) (hp : p ∈ placedFrom 0 copying) {o : Int} (ho : o ∈ exits p)
      (h : OnPath (placedFrom 0 copying) 0 p.offset) : OnPath (placedFrom 0 copying) 0 o := h.step hp ho
  have hpath : OnPath (placedFrom 0 copying) 0 (27 : Int) := by
    refine hnext ⟨21, .jcc .equal 7⟩ (by decide) (by decide) ?_
    refine hnext ⟨18, .test .rax .rax⟩ (by decide) (by decide) ?_
    refine hnext ⟨11, .load .rax .rdi 0⟩ (by decide) (by decide) ?_
    refine hnext ⟨4, .subImm .rsp 8⟩ (by decide) (by decide) ?_
    refine hnext ⟨1, .movReg .rbp .rsp⟩ (by decide) (by decide) ?_
    exact hnext ⟨0, .push .rbp⟩ (by decide) (by decide) .entry
  have hlive : Live (placedFrom 0 copying) 0 ⟨27, .store .rbp (-8) .rax⟩ := ⟨by decide, hpath⟩
  exact ⟨copying_verified, hsound, hlive, hsound.memory _ _ _ hlive rfl (by decide)⟩

/-- Code is accepted although it has an operand on its only path that is out of bounds. -/
theorem overflowing_outOfBounds : verify (encodeAll overflowing) {} 0 = .ok () ∧
    ∃ placed p b o, decodeAll (encodeAll overflowing) = .ok placed ∧ Live placed 0 p ∧
      p.instr.memory? = some (b, o) ∧ ¬ InBounds placed 0 (1 + 2 * (({} : Layout).size)) b o := by
  refine ⟨overflowing_verified, placedFrom 0 overflowing, ⟨4, .load .rax .rbp Int32.minValue⟩, _, _,
    decodeAll_encodeAll (by decide), ⟨by decide, ?_⟩, rfl, ?_⟩
  · have hfirst : OnPath (placedFrom 0 overflowing) 0 (1 : Int) :=
      .step (p := ⟨0, .push .rbp⟩) .entry (by decide) (by decide)
    exact .step (p := ⟨1, .movReg .rbp .rsp⟩) hfirst (by decide) (by decide)
  · rintro ⟨-, ⟨-, q, imm, words, hlive, hi, -⟩ | ⟨hbase, -⟩⟩
    · have hnone : ∀ q ∈ placedFrom 0 overflowing, q.instr.setsUp = true → q.instr = .movReg .rbp .rsp := by decide
      have hup := hnone q hlive.mem (by rw [hi]; rfl)
      rw [hi] at hup
      cases hup
    · cases hbase

end TierCalc.Routine
