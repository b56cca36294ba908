import TierCalc.Proofs.X64.Codec
import TierCalc.Proofs.X64.Memory

/-!
# Runs of the machine

`Steps p home ok n s t` says that the machine passes from `s` to `t` in `n` steps, each of them by an instruction that
`ok` allows in the state in which it is executed. The machine is deterministic, so what such a run allows holds of
every state that is reached on the way (`Steps.split`).

* `Program.Holds p pc is` says that the instructions `is` stand one after another in `p` from the offset `pc` on; a
  program that was made from the bytes of instructions holds them (`holds_ofBytes`).
* `exec_push` and its companions say what an instruction does to a state, in terms of `setReg`, `store`, `setFlags`
  and `goto`; the registers and words of such a state are known by simplification.
* `Harmless allowed i s` says that `i` stores only where `allowed` lets it and divides only what can be divided.
-/

namespace TierCalc.X64

/-! ### Registers and words of a changed state -/

namespace State

def goto (s : State) (pc : Int) : State := { s with pc := pc }

variable (s : State)

@[simp] theorem pc_goto (pc : Int) : (s.goto pc).pc = pc := rfl
@[simp] theorem pc_setReg (r : Reg) (w : Word) : (s.setReg r w).pc = s.pc := rfl
@[simp] theorem pc_setFlags (f : Flags) : (s.setFlags f).pc = s.pc := rfl

@[simp] theorem pc_store (a w : Word) : (s.store a w).pc = s.pc := by
  unfold store
  split_ifs <;> rfl

theorem store_goto (pc : Int) (a w : Word) : (s.goto pc).store a w = (s.store a w).goto pc := by
  unfold store
  split_ifs <;> rfl

@[simp] theorem goto_goto (pc pc' : Int) : (s.goto pc).goto pc' = s.goto pc' := rfl

@[simp] theorem reg_goto (pc : Int) (r : Reg) : (s.goto pc).reg r = s.reg r := rfl
@[simp] theorem reg_setFlags (f : Flags) (r : Reg) : (s.setFlags f).reg r = s.reg r := rfl

@[simp] theorem reg_store (a w : Word) (r : Reg) : (s.store a w).reg r = s.reg r := by
  unfold store
  split_ifs <;> rfl

@[simp] theorem reg_setReg_self (r : Reg) (w : Word) : (s.setReg r w).reg r = w := Bank.get_set_self _ _ _

theorem reg_setReg_of_ne {q r : Reg} (h : q ≠ r) (w : Word) : (s.setReg r w).reg q = s.reg q :=
  Bank.get_set_of_ne _ h w

@[simp] theorem flags_setFlags (f : Flags) : (s.setFlags f).flags = f := rfl
theorem reg_setByte_of_ne {q : Reg} (h : q ≠ .rax) (b : UInt64) : (s.setByte .rax b).reg q = s.reg q :=
  s.reg_setReg_of_ne h _

@[simp] theorem pc_setByte (r : Reg) (b : UInt64) : (s.setByte r b).pc = s.pc := rfl
end State

/-! ### Single instructions -/

section
variable (home : Word) (after : Int) (s : State)

theorem exec_push (r : Reg) :
    exec home after (.push r) s =
      .running (((s.goto after).store (s.reg .rsp - 8) (s.reg r)).setReg .rsp (s.reg .rsp - 8)) := rfl

theorem exec_pop (r : Reg) :
    exec home after (.pop r) s =
      .running (((s.goto after).setReg .rsp (s.reg .rsp + 8)).setReg r (s.load (s.reg .rsp))) := rfl

theorem exec_movReg (d r : Reg) : exec home after (.movReg d r) s = .running ((s.goto after).setReg d (s.reg r)) := rfl

theorem exec_load (d b : Reg) (o : Int32) :
    exec home after (.load d b o) s = .running ((s.goto after).setReg d (s.load (s.address b o))) := rfl

theorem exec_store (b r : Reg) (o : Int32) :
    exec home after (.store b o r) s = .running ((s.goto after).store (s.address b o) (s.reg r)) := rfl

theorem exec_storeImm (b : Reg) (o v : Int32) :
    exec home after (.storeImm b o v) s = .running ((s.goto after).store (s.address b o) v.toInt64) := rfl

theorem exec_add (d r : Reg) :
    exec home after (.add d r) s =
      .running (((s.goto after).setReg d (s.reg d + s.reg r)).setFlags (.ofSum (s.reg d) (s.reg r))) := rfl

theorem exec_sub (d r : Reg) :
    exec home after (.sub d r) s =
      .running (((s.goto after).setReg d (s.reg d - s.reg r)).setFlags (.ofDifference (s.reg d) (s.reg r))) := rfl

theorem exec_imul (d r : Reg) :
    exec home after (.imul d r) s =
      .running (((s.goto after).setReg d (s.reg d * s.reg r)).setFlags (.ofProduct (s.reg d) (s.reg r))) := rfl

theorem exec_addImm (r : Reg) (v : Int32) :
    exec home after (.addImm r v) s =
      .running (((s.goto after).setReg r (s.reg r + v.toInt64)).setFlags (.ofSum (s.reg r) v.toInt64)) := rfl

theorem exec_subImm (r : Reg) (v : Int32) :
    exec home after (.subImm r v) s =
      .running (((s.goto after).setReg r (s.reg r - v.toInt64)).setFlags (.ofDifference (s.reg r) v.toInt64)) := rfl

theorem exec_neg (r : Reg) :
    exec home after (.neg r) s =
      .running (((s.goto after).setReg r (-(s.reg r))).setFlags (.ofDifference 0 (s.reg r))) := rfl

theorem exec_cqo :
    exec home after .cqo s = .running ((s.goto after).setReg .rdx (if s.reg .rax < 0 then -1 else 0)) := rfl

theorem exec_test (x y : Reg) :
    exec home after (.test x y) s =
      .running ((s.goto after).setFlags (.ofResult ((s.reg x).toUInt64 &&& (s.reg y).toUInt64).toInt64 false false)) := rfl

theorem exec_cmp (x y : Reg) :
    exec home after (.cmp x y) s = .running ((s.goto after).setFlags (.ofDifference (s.reg x) (s.reg y))) := rfl

theorem exec_cmpImm (r : Reg) (v : Int8) :
    exec home after (.cmpImm r v) s = .running ((s.goto after).setFlags (.ofDifference (s.reg r) v.toInt64)) := rfl

theorem exec_jmp (d : Int32) : exec home after (.jmp d) s = .running (s.goto (after + d.toInt)) := rfl

theorem exec_jcc (c : Cond) (d : Int32) :
    exec home after (.jcc c d) s =
      .running (s.goto (if s.flags.holds c then after + d.toInt else after)) := by
  change Next.running _ = _
  split_ifs <;> rfl

theorem exec_setcc (c : Cond) (r : Reg) :
    exec home after (.setcc c r) s = .running ((s.goto after).setByte r (if s.flags.holds c then 1 else 0)) := rfl

theorem exec_movzx (d r : Reg) :
    exec home after (.movzx d r) s = .running ((s.goto after).setReg d (s.getByte r)) := rfl

theorem exec_idiv {r : Reg} {q m : Word} (h : divide (s.reg .rdx) (s.reg .rax) (s.reg r) = some (q, m)) :
    exec home after (.idiv r) s = .running (((s.goto after).setReg .rax q).setReg .rdx m) := by
  have h' : divide ((s.goto after).reg .rdx) ((s.goto after).reg .rax) ((s.goto after).reg r) = some (q, m) := h
  unfold State.goto at h'
  simp only [exec, h']
  rfl

theorem exec_xor32_self (r : Reg) :
    exec home after (.xor32 r r) s = .running (((s.goto after).setReg r 0).setFlags (.ofResult 0 false false)) := by
  have hexec (w : Word) (hw : w = 0) :
      Next.running (((s.goto after).setReg r w).setFlags
        { Flags.ofResult w false false with sign := w ≥ 0x80000000 }) =
      .running (((s.goto after).setReg r 0).setFlags (.ofResult 0 false false)) := by
    subst hw
    rfl
  refine hexec (State.low32 ((s.reg r).toUInt64 ^^^ (s.reg r).toUInt64)) ?_
  rw [UInt64.xor_self]
  rfl

/-- A constant arrives whole, whichever move was chosen for it. -/
theorem exec_mov (r : Reg) (v : Word) : exec home after (.mov r v) s = .running ((s.goto after).setReg r v) := by
  rcases Instr.mov_cases r v with ⟨hmov, hv⟩ | hmov
  · rw [hmov]
    change Next.running ((s.goto after).setReg r _) = _
    rw [hv]
  · rw [hmov]
    rfl

end

/-! ### Runs -/

/-- A run in a number of steps by allowed instructions. -/
inductive Steps (p : Program) (home : Word) (ok : Instr → State → Prop) : Nat → State → State → Prop
  | refl (s : State) : Steps p home ok 0 s s
  | step {n size : Nat} {i : Instr} {s t u : State} :
      p.fetch? s.pc = some (i, size) → ok i s → exec home (s.pc + size) i s = .running t →
      Steps p home ok n t u → Steps p home ok (n + 1) s u

namespace Steps

variable {p : Program} {home : Word} {ok ok' : Instr → State → Prop} {m n : Nat} {s t u : State}

theorem trans (h : Steps p home ok m s t) (h' : Steps p home ok n t u) : Steps p home ok (m + n) s u := by
  induction h with
  | refl s => simpa using h'
  | @step m size i s t u hf ho he _ ih =>
      have e : m + 1 + n = m + n + 1 := by omega
      rw [e]
      exact .step hf ho he (ih h')

theorem single {i : Instr} {size : Nat} (hf : p.fetch? s.pc = some (i, size)) (ho : ok i s)
    (he : exec home (s.pc + size) i s = .running t) : Steps p home ok 1 s t := .step hf ho he (.refl t)

theorem mono (hok : ∀ i s, ok i s → ok' i s) (h : Steps p home ok n s t) : Steps p home ok' n s t := by
  induction h with
  | refl s => exact .refl s
  | step hf ho he _ ih => exact .step hf (hok _ _ ho) he ih

theorem run (h : Steps p home ok n s t) (fuel : Nat) : X64.run p home (n + fuel) s = X64.run p home fuel t := by
  induction h with
  | refl s => rw [Nat.zero_add]
  | @step n size i s t u hf _ he _ ih =>
      rw [Nat.add_right_comm, X64.run, X64.step, hf]
      simp only [he, ih]

/-- The machine is deterministic: of two runs from one state, the longer one continues the shorter one. -/
theorem split (h : Steps p home ok n s t) (h' : Steps p home ok' m s u) :
    (∃ k, n = m + k ∧ Steps p home ok k u t) ∨ ∃ k, m = n + k ∧ Steps p home ok' k t u := by
  induction h generalizing m with
  | refl s => exact .inr ⟨m, by omega, h'⟩
  | @step n size i s t v hf ho he hr ih =>
      cases h' with
      | refl => exact .inl ⟨n + 1, by omega, .step hf ho he hr⟩
      | step hf' _ he' hr' =>
          rw [hf] at hf'
          obtain ⟨rfl, rfl⟩ := Prod.mk.inj (Option.some.inj hf')
          rw [he] at he'
          obtain rfl := Next.running.inj he'
          obtain ⟨k, hk, hs⟩ | ⟨k, hk, hs⟩ := ih hr'
          · exact .inl ⟨k, by omega, hs⟩
          · exact .inr ⟨k, by omega, hs⟩

/-- Until a run stands at a return, every state that is reached is one of its own. -/
theorem reached {size k : Nat} (h : Steps p home ok n s t) (hret : p.fetch? t.pc = some (.ret, size))
    (h' : Steps p home ok' k s u) : k ≤ n ∧ (u = t ∨ ∃ i size, p.fetch? u.pc = some (i, size) ∧ ok i u) := by
  obtain ⟨m, rfl, hm⟩ | ⟨m, rfl, hm⟩ := h.split h'
  · refine ⟨by omega, ?_⟩
    cases hm with
    | refl => exact .inl rfl
    | step hf ho _ _ => exact .inr ⟨_, _, hf, ho⟩
  · cases hm with
    | refl => exact ⟨by omega, .inl rfl⟩
    | step hf _ he _ =>
        rw [hret] at hf
        obtain ⟨rfl, rfl⟩ := Prod.mk.inj (Option.some.inj hf)
        simp only [exec] at he
        split_ifs at he

end Steps

theorem step_ret {p : Program} {home : Word} {s : State} {size : Nat} (hf : p.fetch? s.pc = some (.ret, size))
    (hs : s.load (s.reg .rsp) = home) :
    step p home s = .returned ((s.goto (s.pc + size)).setReg .rsp (s.reg .rsp + 8)) := by
  rw [step, hf]
  exact if_pos hs

/-- Whether the machine passes from one state to another in a number of steps. -/
abbrev Reaches (p : Program) (home : Word) : Nat → State → State → Prop := Steps p home fun _ _ => True

/-! ### Harmless instructions -/

/-- The address at which an instruction stores a word, if it stores one. -/
def Instr.storesAt? (i : Instr) (s : State) : Option Word :=
  match i with
  | .push _ => some (s.reg .rsp - 8)
  | .store b o _ => some (s.address b o)
  | .storeImm b o _ => some (s.address b o)
  | _ => none

theorem load_of_exec {home : Word} {after : Int} {i : Instr} {s t : State} {x : Word}
    (h : exec home after i s = .running t) (hx : ∀ a, i.storesAt? s = some a → State.Apart a x) :
    t.load x = s.load x := by
  cases i with
  | push r =>
      obtain rfl := Next.running.inj h
      exact State.load_store_of_apart (s.goto after) (hx _ rfl) _
  | store b o r =>
      obtain rfl := Next.running.inj h
      exact State.load_store_of_apart (s.goto after) (hx _ rfl) _
  | storeImm b o v =>
      obtain rfl := Next.running.inj h
      exact State.load_store_of_apart (s.goto after) (hx _ rfl) _
  | idiv r =>
      simp only [exec] at h
      split at h
      · obtain rfl := Next.running.inj h
        rfl
      · cases h
  | jcc c d =>
      rw [exec_jcc] at h
      obtain rfl := Next.running.inj h
      rfl
  | ret =>
      simp only [exec] at h
      split_ifs at h
  | _ =>
      obtain rfl := Next.running.inj h
      rfl

/-- Whether an instruction stores only where it is allowed to, and divides only if the quotient exists and fits. -/
structure Harmless (allowed : Word → Prop) (i : Instr) (s : State) : Prop where
  stores : ∀ a, i.storesAt? s = some a → allowed a
  divides : ∀ r, i = .idiv r → s.reg r ≠ 0 ∧ ¬ (s.reg .rax = Int64.minValue ∧ s.reg r = -1)

/-- A run of harmless instructions changes no word that lies apart from all allowed ones. -/
theorem Steps.load_of_harmless {p : Program} {home : Word} {allowed : Word → Prop} {n : Nat} {s t : State} {x : Word}
    (h : Steps p home (Harmless allowed) n s t) (hx : ∀ a, allowed a → State.Apart a x) : t.load x = s.load x := by
  induction h with
  | refl s => rfl
  | step _ ho he _ ih => exact ih.trans (load_of_exec he fun a ha => hx a (ho.stores a ha))

/-! ### Code in its place -/

/-- Whether instructions stand one after another in a program. -/
def Program.Holds (p : Program) : Int → List Instr → Prop
  | _, [] => True
  | pc, i :: is => p.fetch? pc = some (i, i.size) ∧ p.Holds (pc + i.size) is

theorem Program.fetch?_encodeAll {i : Instr} (h : i.Encodable) (before after : List Instr) :
    (ofBytes (encodeAll (before ++ i :: after))).fetch? (sizeAll before) = some (i, i.size) := by
  have hd : (encodeAll (before ++ i :: after)).drop (sizeAll before) = i.encode ++ encodeAll after := by
    rw [encodeAll_append, ← length_encodeAll, List.drop_left, encodeAll_cons]
  rw [fetch?_ofBytes, if_neg (by omega), Int.toNat_natCast, hd, first?, Instr.decode_encode h]

theorem Program.holds_encodeAll {is : List Instr} (h : ∀ i ∈ is, i.Encodable) (before : List Instr) :
    (ofBytes (encodeAll (before ++ is))).Holds (sizeAll before) is := by
  induction is generalizing before with
  | nil => trivial
  | cons i is ih =>
      refine ⟨fetch?_encodeAll (h i (by simp)) before is, ?_⟩
      have hrest := ih (fun j hj => h j (by simp [hj])) (before ++ [i])
      rw [List.append_assoc, List.singleton_append, sizeAll_append] at hrest
      simpa [sizeAll] using hrest

theorem Program.holds_ofBytes {is : List Instr} (h : ∀ i ∈ is, i.Encodable) :
    (ofBytes (encodeAll is)).Holds 0 is := holds_encodeAll h []

theorem Program.Holds.append {p : Program} {pc : Int} {is js : List Instr} (h : p.Holds pc (is ++ js)) :
    p.Holds pc is ∧ p.Holds (pc + sizeAll is) js := by
  induction is generalizing pc with
  | nil => simpa [Holds, sizeAll] using h
  | cons i is ih =>
      obtain ⟨h1, h2⟩ := ih h.2
      refine ⟨⟨h.1, h1⟩, ?_⟩
      rw [sizeAll, Int.natCast_add, ← Int.add_assoc]
      exact h2

end TierCalc.X64
