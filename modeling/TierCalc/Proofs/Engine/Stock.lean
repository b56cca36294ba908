import TierCalc.Engine.Execute
import TierCalc.Engine.Requests
import TierCalc.Proofs.Profile.Cache

/-!
# The code that an engine holds

`Stock` says what is true of the entries of an engine's profile and of the code in its arena, whatever was submitted:
there is one entry for each fingerprint, its code was generated from an expression that was submitted and has the
fingerprint, and no two entries own the same code. Which expressions were submitted is a parameter.
-/

namespace TierCalc

def Entry.handle? (x : Entry Artifact) : Option X64.Handle := x.artifact?.bind (·.handle?)

/-! ### Regions of an arena -/

theorem X64.Region.invoke_of_call {r : Region} {frame : List Word} {answer : Word × List Word}
    (hx : r.executable = true) (hne : frame ≠ []) (hcall : call r.code r.entry frame = some answer) :
    r.invoke frame = .ok answer := by
  have h1 : ¬ (!r.executable) = true := by simp [hx]
  have h2 : ¬ frame.isEmpty = true := by simp [hne]
  rw [invoke, if_neg h1, if_neg h2, hcall]

namespace X64.Arena

theorem prepare_cases {a a' : Arena} {code : Bytes} {entry : Int} {h : Handle}
    (hp : a.prepare code entry = .ok (h, a')) :
    a.get? h = none ∧ a'.get? h = some ⟨code, entry, true⟩ ∧ ∀ g r, a.get? g = some r → a'.get? g = some r := by
  unfold prepare at hp
  split at hp
  · rename_i r hr
    simp only [Except.ok.injEq, Prod.mk.injEq] at hp
    obtain ⟨rfl, rfl⟩ := hp
    have hregion : r = ⟨code, entry, true⟩ := by
      unfold Region.prepare at hr
      split_ifs at hr
      exact (Except.ok.inj hr).symm
    refine ⟨by simp [get?], by simp [get?, hregion], fun g r' hg => ?_⟩
    obtain ⟨hlt, -⟩ := List.getElem?_eq_some_iff.mp hg
    rw [get?, List.getElem?_append_left hlt]
    exact hg
  · cases hp

theorem get?_of_release {a a' : Arena} {h g : Handle} (hr : a.release h = .ok a') (hne : g ≠ h) :
    a'.get? g = a.get? g := by
  unfold release at hr
  split at hr
  · split at hr
    · obtain rfl := Except.ok.inj hr
      exact List.getElem?_set_ne (Ne.symm hne)
    · cases hr
  · cases hr

theorem release_live {a : Arena} {h : Handle} {code : Bytes} {entry : Int} (hg : a.get? h = some ⟨code, entry, true⟩) :
    ∃ a', a.release h = .ok a' := by
  rw [release, hg]
  exact ⟨_, rfl⟩

end X64.Arena

namespace Engine

/-! ### The invariant -/

/-- Whether the code of a routine stands under a handle, ready to run. -/
def Prepared (arena : X64.Arena) (r : Routine) (h : X64.Handle) : Prop := arena.get? h = some ⟨r.code, r.entry, true⟩

/-- Whether the code of an entry belongs to an expression that was submitted, and stands in the arena. -/
structure Kept (submitted : Expr → Prop) (arena : X64.Arena) (x : Entry Artifact) : Prop where
  made : ∀ a, x.artifact? = some a →
    ∃ e vars, submitted e ∧ e.fingerprint = x.fingerprint ∧ Routine.generate e (seedsFor e vars) = .ok a.routine
  prepared : ∀ a h, x.artifact? = some a → a.handle? = some h → Prepared arena a.routine h

/-- Whether entries are kept, each with a fingerprint and a handle of its own. -/
structure Stock (submitted : Expr → Prop) (arena : X64.Arena) (l : List (Entry Artifact)) : Prop where
  distinct : (l.map (·.fingerprint)).Nodup
  owned : (l.filterMap Entry.handle?).Nodup
  kept : ∀ x ∈ l, Kept submitted arena x

/-- Whether an engine admits requests and its entries are kept. -/
structure Sound (submitted : Expr → Prop) (s : Engine) : Prop where
  unlocked : s.locked = false
  opened : s.closed = false
  stock : Stock submitted s.arena s.cache.entries

section
variable {P : Expr → Prop} {arena arena' : X64.Arena} {l l' : List (Entry Artifact)} {x y : Entry Artifact}
  {a : Artifact} {s : Engine} {e : Expr}

theorem handle?_eq_some {h : X64.Handle} : x.handle? = some h ↔ ∃ a, x.artifact? = some a ∧ a.handle? = some h :=
  Option.bind_eq_some_iff

theorem Stock.nil : Stock P arena [] := ⟨List.nodup_nil, List.nodup_nil, by simp⟩

/-- The order of the entries does not matter. -/
theorem Stock.perm (hs : Stock P arena l) (h : l.Perm l') : Stock P arena l' where
  distinct := (h.map _).nodup_iff.mp hs.distinct
  owned := (h.filterMap _).nodup_iff.mp hs.owned
  kept x hx := hs.kept x (h.mem_iff.mpr hx)

theorem stock_cons : Stock P arena (x :: l) ↔
    x.fingerprint ∉ l.map (·.fingerprint) ∧ (∀ h, x.handle? = some h → h ∉ l.filterMap Entry.handle?) ∧
      Kept P arena x ∧ Stock P arena l := by
  constructor
  · intro hs
    obtain ⟨hfp, hdistinct⟩ := List.nodup_cons.mp hs.distinct
    have howned := hs.owned
    refine ⟨hfp, fun h hh => ?_, hs.kept x List.mem_cons_self,
      hdistinct, ?_, fun y hy => hs.kept y (List.mem_cons_of_mem x hy)⟩
    · rw [List.filterMap_cons_some hh] at howned
      exact (List.nodup_cons.mp howned).1
    · exact howned.sublist ((List.sublist_cons_self x l).filterMap _)
  · rintro ⟨hfp, hfresh, hx, hl⟩
    refine ⟨List.nodup_cons.mpr ⟨hfp, hl.distinct⟩, ?_, List.forall_mem_cons.mpr ⟨hx, hl.kept⟩⟩
    cases hh : x.handle? with
    | none =>
        rw [List.filterMap_cons_none hh]
        exact hl.owned
    | some h =>
        rw [List.filterMap_cons_some hh]
        exact List.nodup_cons.mpr ⟨hfresh h hh, hl.owned⟩

/-- Only the regions that entries own matter. -/
theorem Stock.rehouse (hs : Stock P arena l)
    (h : ∀ g ∈ l.filterMap Entry.handle?, ∀ r, arena.get? g = some r → arena'.get? g = some r) : Stock P arena' l where
  distinct := hs.distinct
  owned := hs.owned
  kept x hx :=
    { made := (hs.kept x hx).made
      prepared := fun a g ha hg =>
        h g (List.mem_filterMap.mpr ⟨x, hx, handle?_eq_some.mpr ⟨a, ha, hg⟩⟩) _ ((hs.kept x hx).prepared a g ha hg) }

theorem Stock.taken (hs : Stock P arena l) {h : X64.Handle} (hh : h ∈ l.filterMap Entry.handle?) :
    arena.get? h ≠ none := by
  obtain ⟨x, hx, hxh⟩ := List.mem_filterMap.mp hh
  obtain ⟨a, ha, hah⟩ := handle?_eq_some.mp hxh
  rw [(hs.kept x hx).prepared a h ha hah]
  exact Option.some_ne_none _

/-- An entry may change in what does not identify it or its code. -/
theorem Stock.replace (hs : Stock P arena (x :: l)) (hfp : y.fingerprint = x.fingerprint)
    (hart : y.artifact? = x.artifact?) : Stock P arena (y :: l) := by
  obtain ⟨hfresh, howned, hx, hl⟩ := stock_cons.mp hs
  refine stock_cons.mpr ⟨hfp ▸ hfresh, ?_, ⟨?_, ?_⟩, hl⟩
  · rwa [Entry.handle?, hart]
  · rw [hfp, hart]
    exact hx.made
  · rw [hart]
    exact hx.prepared

/-! ### Giving code back -/

theorem get?_release {a : Artifact} {g : X64.Handle} (hg : a.handle? ≠ some g) :
    (a.release arena).2.get? g = arena.get? g := by
  unfold Artifact.release
  cases hh : a.handle? with
  | none => rfl
  | some h =>
      dsimp only
      split
      · rename_i arena' hr
        exact X64.Arena.get?_of_release hr fun e => hg (hh.trans (congrArg some e.symm))
      · rfl

/-- Giving up code that no entry owns leaves the entries as they are. -/
theorem Stock.release (hs : Stock P arena l) (a : Artifact)
    (hfree : ∀ h, a.handle? = some h → h ∉ l.filterMap Entry.handle?) : Stock P (a.release arena).2 l := by
  refine hs.rehouse fun g hg r hr => ?_
  rw [get?_release fun e => hfree g e hg]
  exact hr

/-- The code of an entry is given back without a failure, and the other entries keep theirs. -/
theorem Stock.release_entry (hs : Stock P arena (x :: l)) :
    ∃ arena', x.release Artifact.release arena = (none, arena') ∧ Stock P arena' l := by
  obtain ⟨-, howned, hx, hl⟩ := stock_cons.mp hs
  unfold Entry.release
  cases ha : x.artifact? with
  | none => exact ⟨arena, rfl, hl⟩
  | some a =>
      have hstock := hl.release a fun h hh => howned h (handle?_eq_some.mpr ⟨a, ha, hh⟩)
      refine ⟨(a.release arena).2, Prod.ext ?_ rfl, hstock⟩
      dsimp only [Artifact.release]
      cases hh : a.handle? with
      | none => rfl
      | some h =>
          obtain ⟨arena', hr⟩ := X64.Arena.release_live (hx.prepared a h ha hh)
          simp only [hr]

theorem Stock.releaseAll (hs : Stock P arena l) :
    ∃ arena', Entry.releaseAll Artifact.release l arena = ([], arena') := by
  induction l generalizing arena with
  | nil => exact ⟨arena, rfl⟩
  | cons x l ih =>
      obtain ⟨arena', hx, hl⟩ := hs.release_entry
      obtain ⟨arena'', hrest⟩ := ih hl
      refine ⟨arena'', ?_⟩
      simp only [Entry.releaseAll, hx, hrest]
      rfl

/-! ### Submissions -/

/-- Counting a submission keeps the entries, and an entry that has to go is disposed of. -/
theorem Sound.submit (hs : Sound P s) (e : Expr) :
    Sound P (s.submit e).2.2 ∧ (s.submit e).2.2.env = s.env := by
  obtain ⟨y, rest, hnew, hfp, hcase⟩ :=
    Cache.record_cases hs.stock.distinct e.fingerprint e.callFree e.render
  unfold Engine.submit Cache.submit
  dsimp only
  rcases hcase with ⟨x, hold, hxfp, -, hart, hevicted⟩ | ⟨hfresh, -, hart, hold⟩
  · rw [hevicted]
    have hstock := (hs.stock.perm hold).replace (hfp.trans hxfp.symm) hart
    exact ⟨⟨hs.unlocked, hs.opened, hstock.perm hnew.symm⟩, rfl⟩
  · -- A new entry has no code, so it may join in any arena, also after one that made room has been disposed of.
    have hadd {arena : X64.Arena} (h : Stock P arena rest) : Stock P arena (y :: rest) := by
      refine stock_cons.mpr ⟨hfp ▸ hfresh, ?_, ⟨?_, ?_⟩, h⟩
      · simp [Entry.handle?, hart]
      · simp [hart]
      · simp [hart]
    cases hevicted : (s.cache.record e.fingerprint e.callFree e.render).evicted? with
    | none =>
        rw [hevicted] at hold
        exact ⟨⟨hs.unlocked, hs.opened, (hadd (hs.stock.perm hold)).perm hnew.symm⟩, rfl⟩
    | some old =>
        rw [hevicted] at hold
        obtain ⟨arena', hrelease, hstock⟩ := (hs.stock.perm hold).release_entry
        dsimp only [Entry.releaseEvicted]
        rw [hrelease]
        exact ⟨⟨hs.unlocked, hs.opened, (hadd hstock).perm hnew.symm⟩, rfl⟩

/-! ### Compilation -/

/-- A compilation fails and changes nothing, or gives code for the expression under a handle that was free. -/
theorem compile_cases (s : Engine) (e : Expr) :
    (∃ r, s.compile e = (.error r, s)) ∨
      ∃ a arena', s.compile e = (.ok a, { s with arena := arena' }) ∧
        Routine.generate e (seedsFor e s.env) = .ok a.routine ∧
        (∀ g r, s.arena.get? g = some r → arena'.get? g = some r) ∧
        ∀ h, a.handle? = some h → s.arena.get? h = none ∧ Prepared arena' a.routine h := by
  unfold compile
  cases hgen : Routine.generate e (seedsFor e s.env) with
  | error r => exact .inl ⟨_, rfl⟩
  | ok routine =>
      dsimp only
      split
      · split
        · exact .inl ⟨_, rfl⟩
        · rename_i h arena' hp
          obtain ⟨hfree, hnew, hkeep⟩ := X64.Arena.prepare_cases hp
          refine .inr ⟨⟨routine, some h⟩, arena', rfl, rfl, hkeep, ?_⟩
          rintro g ⟨⟩
          exact ⟨hfree, hnew⟩
      · exact .inr ⟨⟨routine, none⟩, s.arena, rfl, rfl, fun _ _ h => h, by simp⟩

theorem Sound.install (hs : Sound P s) {fp : Fingerprint} {outcome : Except CompileError Artifact}
    (hout : ∀ a, outcome = .ok a →
      (∃ e vars, P e ∧ e.fingerprint = fp ∧ Routine.generate e (seedsFor e vars) = .ok a.routine) ∧
      ∀ h, a.handle? = some h → Prepared s.arena a.routine h ∧ h ∉ s.cache.entries.filterMap Entry.handle?) :
    Sound P (s.install fp outcome) ∧ (s.install fp outcome).env = s.env := by
  unfold Engine.install
  rw [if_neg (by simp [hs.opened])]
  cases outcome with
  | error r =>
      refine ⟨⟨hs.unlocked, hs.opened, ?_⟩, rfl⟩
      change Stock P s.arena (s.cache.markFailed fp).entries
      rcases Cache.markFailed_cases hs.stock.distinct fp with hsame | ⟨x, rest, hold, hnone, hnew⟩
      · rw [hsame]
        exact hs.stock
      · refine Stock.perm ?_ hnew.symm
        exact (hs.stock.perm hold).replace rfl hnone.symm
  | ok a =>
      obtain ⟨hmade, hprepared⟩ := hout a rfl
      cases hinstall : s.cache.install fp a with
      | error r =>
          have hstock := hs.stock.release a fun h hh => (hprepared h hh).2
          simp only [hinstall]
          cases (a.release s.arena).1 with
          | none => exact ⟨⟨hs.unlocked, hs.opened, hstock⟩, rfl⟩
          | some f => exact ⟨⟨hs.unlocked, hs.opened, hstock⟩, rfl⟩
      | ok cache =>
          obtain ⟨x, rest, hold, hxfp, hnew⟩ := Cache.install_cases hs.stock.distinct hinstall
          simp only [hinstall]
          refine ⟨⟨hs.unlocked, hs.opened, ?_⟩, rfl⟩
          obtain ⟨hfresh, -, hx, hrest⟩ := stock_cons.mp (hs.stock.perm hold)
          have hsub : ∀ h ∈ rest.filterMap Entry.handle?, h ∈ s.cache.entries.filterMap Entry.handle? := fun h hh =>
            (hold.filterMap _).mem_iff.mpr ((List.sublist_cons_self x rest).filterMap _ |>.subset hh)
          refine Stock.perm ?_ hnew.symm
          refine stock_cons.mpr ⟨hfresh, ?_, ⟨?_, ?_⟩, hrest⟩
          · intro h hh hmem
            exact (hprepared h hh).2 (hsub h hmem)
          · rintro b ⟨⟩
            rw [hxfp]
            exact hmade
          · rintro b h ⟨⟩ hh
            exact (hprepared h hh).1

/-- Compiling a promoted expression keeps the entries. -/
theorem Sound.promote (hs : Sound P s) (he : P e) (count : UInt64) :
    Sound P (s.promote e count) ∧ (s.promote e count).env = s.env := by
  have hs' : Sound P (s.report (.hot e.fingerprint count)) := ⟨hs.unlocked, hs.opened, hs.stock⟩
  unfold Engine.promote
  rcases compile_cases (s.report (.hot e.fingerprint count)) e with ⟨r, hc⟩ | ⟨a, arena', hc, hgen, hkeep, hhandle⟩
  · rw [hc]
    exact hs'.install (by simp)
  · rw [hc]
    have hstock : Stock P arena' s.cache.entries := hs.stock.rehouse fun g _ => hkeep g
    refine Sound.install (s := { s.report (.hot e.fingerprint count) with arena := arena' })
      ⟨hs.unlocked, hs.opened, hstock⟩ ?_
    rintro b ⟨⟩
    refine ⟨⟨e, _, he, rfl, hgen⟩, fun h hh => ⟨(hhandle h hh).2, fun hmem => hs.stock.taken hmem (hhandle h hh).1⟩⟩

/-- The engine after a submission, when compiled code may run for it. -/
def receive (s : Engine) (e : Expr) : Engine :=
  if (s.submit e).2.1 then (s.submit e).2.2.promote e (s.submit e).1 else (s.submit e).2.2

theorem Sound.receive (hs : Sound P s) (he : P e) : Sound P (s.receive e) ∧ (s.receive e).env = s.env := by
  obtain ⟨hsubmit, henv⟩ := hs.submit e
  unfold Engine.receive
  split_ifs
  · obtain ⟨hpromote, henv'⟩ := hsubmit.promote he (s.submit e).1
    exact ⟨hpromote, henv'.trans henv⟩
  · exact ⟨hsubmit, henv⟩

/-- What may run for an expression belongs to the entry of its fingerprint, which has its canonical form. -/
theorem artifactFor?_eq_some (h : s.artifactFor? e = some a) :
    ∃ x, s.cache.find? e.fingerprint = some x ∧ x.expr = e.render ∧ x.artifact? = some a := by
  unfold artifactFor? at h
  split at h
  · rename_i x hx
    split_ifs at h with hexpr
    exact ⟨x, hx, by simpa using hexpr, h⟩
  · cases h

end

end Engine

end TierCalc
