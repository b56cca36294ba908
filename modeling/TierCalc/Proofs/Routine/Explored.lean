import TierCalc.Proofs.Routine.Patching

/-!
# Exploring with a bound

`Verify.explore` ends because every instruction is reached once, which no evaluation can see. `Verify.exploreWithin`
follows the same paths for a number of steps and can be evaluated; what it finds is what `explore` finds
(`explore_of_within`), so a routine can be exhibited by evaluation (`generate_of_made`).
-/

namespace TierCalc.Routine

open X64

namespace Verify

/-- Follows paths as `explore` does, for at most the given number of steps. -/
def exploreWithin (size blockWords : Nat) (fuel : Nat) (fresh : List Placed) (depths : List (Int × Int))
    (f : FrameFacts) (work : List (Int × Int)) : Option (Except VerifyError Unit) :=
  match fuel, work with
  | _, [] => some (.ok ())
  | 0, _ :: _ => none
  | fuel + 1, (offset, depth) :: rest =>
      match depths.lookup offset with
      | some other =>
          if other ≠ depth then some (.error (.rule offset (.depthConflict depth other)))
          else exploreWithin size blockWords fuel fresh depths f rest
      | none =>
          match fresh.find? (fun p => p.offset == offset) with
          | none => some (.error (.rule offset .notInstruction))
          | some p =>
              match effect blockWords f depth p with
              | .error fault => some (.error (.rule p.offset fault))
              | .ok (f, after) =>
                  match successors size p with
                  | .error fault => some (.error (.rule p.offset fault))
                  | .ok next =>
                      exploreWithin size blockWords fuel (fresh.erase p) ((offset, depth) :: depths) f
                        (next.map (fun o => (o, after)) ++ rest)

theorem explore_fresh {size blockWords : Nat} {fresh : List Placed} {depths rest : List (Int × Int)} {f : FrameFacts}
    {offset depth : Int} {p : Placed} (hlook : depths.lookup offset = none)
    (hfind : fresh.find? (fun p => p.offset == offset) = some p) :
    explore size blockWords fresh depths f ((offset, depth) :: rest) =
      match effect blockWords f depth p with
      | .error fault => .error (.rule p.offset fault)
      | .ok (f, after) =>
          match successors size p with
          | .error fault => .error (.rule p.offset fault)
          | .ok next =>
              explore size blockWords (fresh.erase p) ((offset, depth) :: depths) f
                (next.map (fun o => (o, after)) ++ rest) := by
  rw [explore, hlook]
  simp only
  split
  · rename_i h
    rw [hfind] at h
    cases h
  · rename_i q h
    rw [hfind] at h
    obtain rfl := Option.some.inj h
    rfl

/-- What is found within a number of steps is found. -/
theorem explore_of_within {size blockWords fuel : Nat} {fresh : List Placed} {depths work : List (Int × Int)}
    {f : FrameFacts} {r : Except VerifyError Unit}
    (h : exploreWithin size blockWords fuel fresh depths f work = some r) :
    explore size blockWords fresh depths f work = r := by
  fun_induction exploreWithin size blockWords fuel fresh depths f work with
  | case1 fuel fresh depths f =>
      rw [explore]
      exact Option.some.inj h
  | case2 => cases h
  | case3 fresh depths f fuel offset depth rest other hlook hne =>
      rw [explore]
      simp only [hlook, if_pos hne]
      exact Option.some.inj h
  | case4 fresh depths f fuel offset depth rest other hlook heq ih =>
      rw [explore]
      simp only [hlook, if_neg heq]
      exact ih h
  | case5 fresh depths f fuel offset depth rest hlook hfind =>
      rw [explore, hlook]
      simp only
      split
      · exact Option.some.inj h
      · rename_i q hq
        rw [hfind] at hq
        cases hq
  | case6 fresh depths f fuel offset depth rest hlook p hfind fault heffect =>
      rw [explore_fresh hlook hfind, heffect]
      exact Option.some.inj h
  | case7 fresh depths f fuel offset depth rest hlook p hfind f' after heffect fault hsucc =>
      rw [explore_fresh hlook hfind, heffect]
      simp only [hsucc]
      exact Option.some.inj h
  | case8 fresh depths f fuel offset depth rest hlook p hfind f' after heffect next hsucc ih =>
      rw [explore_fresh hlook hfind, heffect]
      simp only [hsucc]
      exact ih h

end Verify

/-- What is found of instructions within a number of steps is what verification of their bytes finds. -/
theorem verify_of_within {is : List Instr} (henc : ∀ i ∈ is, i.Encodable) (hne : is ≠ []) {layout : Layout}
    {entry : Int} {fuel : Nat} {r : Except VerifyError Unit}
    (h : Verify.exploreWithin (encodeAll is).length (Frame.words layout.size) fuel (placedFrom 0 is) [] {} [(entry, 0)]
      = some r) : verify (encodeAll is) layout entry = r := by
  obtain ⟨i, rest, rfl⟩ := List.exists_cons_of_ne_nil hne
  rw [verify, decodeAll_encodeAll henc]
  exact Verify.explore_of_within h

/-- The routine that a body makes, if it is accepted within a number of steps. -/
def made? (e : Expr) (seeds : List String) (fuel : Nat) : Option Routine :=
  if !e.callFree then none
  else
    match body 0 e ⟨(Layout.ofSeeds seeds).names, (Layout.ofSeeds seeds).names, 0⟩ with
    | .error _ => none
    | .ok (ps, p) =>
        let is := assemble p.names.length ps
        if p.names.length ≤ maxSlots ∧
            Verify.exploreWithin (encodeAll is).length (Frame.words p.names.length) fuel (placedFrom 0 is) [] {} [(0, 0)]
              = some (.ok ()) then
          some ⟨encodeAll is, ⟨p.names, (Layout.ofSeeds seeds).seeds⟩, 0, p.deepest⟩
        else none

theorem generate_of_made {e : Expr} {seeds : List String} {fuel : Nat} {r : Routine}
    (h : made? e seeds fuel = some r) : generate e seeds = .ok r := by
  unfold made? at h
  split at h
  · cases h
  · rename_i hcalls
    split at h
    · cases h
    · rename_i ps p hbody
      simp only at h
      split_ifs at h with hok
      obtain ⟨hslots, hfound⟩ := hok
      have hverify : verify (encodeAll (assemble p.names.length ps)) ⟨p.names, (Layout.ofSeeds seeds).seeds⟩ 0
          = .ok () :=
        verify_of_within (assemble_encodable (body_encodable hbody) p.names.length)
          (by simp [assemble, epilogue]) hfound
      rw [generate, if_neg hcalls, bind_of_ok (write_of_body hbody hslots), hverify]
      exact congrArg Except.ok (Option.some.inj h)

def sumWithQuotient : Expr :=
  let at0 : Position := default
  .binary (.assign at0 "y" at0 (.int at0 "5" 5)) at0 Operator.add.number
    (.binary (.ident at0 "x") at0 Operator.divide.number (.ident at0 "z"))

set_option maxRecDepth 4000 in
theorem sumWithQuotient_generated : ∃ r, generate sumWithQuotient ["x", "z"] = .ok r ∧ r.size < 2 ^ 31 := by
  obtain ⟨r, hr, hsize⟩ := (Option.any_eq_true _ _).mp
    (by decide : (made? sumWithQuotient ["x", "z"] 40).any (fun r => r.size < 2 ^ 31) = true)
  exact ⟨r, generate_of_made hr, of_decide_eq_true hsize⟩

end TierCalc.Routine
