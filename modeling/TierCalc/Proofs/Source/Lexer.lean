import TierCalc.Proofs.Source.Spelling

/-!
# The stream of tokens, step by step

What one step of reading says about the stream: a token in front of the rest, or its end. From it follow, for the whole
stream, that it is not longer than the source, that only its last token is an end token, and that a token which has one
spelling is spelled so (`stream_proper`).
-/

namespace TierCalc.Lexer

theorem stream_more {file : String} {c c' : Cursor} {t : Token} (hrest : c.skip.rest ≠ [])
    (h : next file c = (.ok t, c')) : stream file c = .more t (stream file c') := by
  rw [stream]
  split
  · contradiction
  · rw [h]

theorem stream_done {file : String} {c : Cursor} (hrest : c.skip.rest = []) :
    stream file c = .done (token .eof [] (c.skip.position file)) := by
  rw [stream]
  split
  · rfl
  · rename_i h
    rw [hrest] at h
    cases h

theorem stream_fault {file : String} {c : Cursor} {e : LexError} (hrest : c.skip.rest ≠ [])
    (h : (next file c).1 = .error e) : stream file c = .fault e := by
  rw [stream]
  split
  · contradiction
  · rw [h]

end TierCalc.Lexer

namespace TierCalc

/-- The token is spelled as its kind is named, unless it is a number, a name or the keyword. -/
def Token.Spelled (t : Token) : Prop := t.kind ≠ .int → t.kind ≠ .ident → t.kind ≠ .cond → t.literal = t.kind.name

/-- A token before the end. -/
structure Token.Proper (t : Token) : Prop where
  before : t.kind ≠ .eof
  spelled : t.Spelled

namespace Tokens

/-- The stream with tokens in front. -/
def prepend (l : List Token) (ts : Tokens) : Tokens := l.foldr .more ts

@[simp] theorem prepend_nil (ts : Tokens) : prepend [] ts = ts := rfl

@[simp] theorem prepend_cons (t : Token) (l : List Token) (ts : Tokens) :
    prepend (t :: l) ts = .more t (prepend l ts) := rfl

theorem prepend_append (l l' : List Token) (ts : Tokens) : prepend (l ++ l') ts = prepend l (prepend l' ts) :=
  List.foldr_append

@[simp] theorem size_prepend (l : List Token) (ts : Tokens) : (prepend l ts).size = l.length + ts.size := by
  induction l with
  | nil => simp
  | cons t l ih => simp [size, ih]; omega

/-- A stream without illegal bytes ends with its last token. -/
theorem eq_prepend_of_toList {ts : Tokens} {l : List Token} (h : ts.toList = .ok l) :
    ∃ l' t, l = l' ++ [t] ∧ ts = prepend l' (.done t) := by
  induction ts generalizing l with
  | fault e => cases h
  | done t =>
      cases h
      exact ⟨[], t, rfl, rfl⟩
  | more t rest ih =>
      cases hrest : rest.toList with
      | error e => simp [toList, hrest, Except.map] at h
      | ok l' =>
          obtain ⟨l'', t', rfl, rfl⟩ := ih hrest
          simp only [toList, hrest, Except.map, Except.ok.injEq] at h
          exact ⟨t :: l'', t', h.symm, rfl⟩

theorem toList_prepend_done (l : List Token) (t : Token) : (prepend l (.done t)).toList = .ok (l ++ [t]) := by
  induction l with
  | nil => rfl
  | cons t l ih => simp [toList, ih, Except.map]

theorem toList_eq_ok_iff {ts : Tokens} {l : List Token} {t : Token} :
    ts.toList = .ok (l ++ [t]) ↔ ts = prepend l (.done t) := by
  constructor
  · intro h
    obtain ⟨l', t', heq, rfl⟩ := eq_prepend_of_toList h
    obtain ⟨rfl, hlast⟩ := List.append_inj' heq rfl
    rw [List.singleton_inj.mp hlast]
  · rintro rfl
    exact toList_prepend_done l t

/-- A stream as a source gives it: all tokens are proper, and the end token stands at the end. -/
def Proper : Tokens → Prop
  | more t rest => t.Proper ∧ rest.Proper
  | done t => t.kind = .eof
  | fault _ => True

theorem Proper.of_prepend {l : List Token} {ts : Tokens} (h : (prepend l ts).Proper) :
    (∀ t ∈ l, t.Proper) ∧ ts.Proper := by
  induction l with
  | nil => exact ⟨by simp, h⟩
  | cons t l ih => exact ⟨List.forall_mem_cons.mpr ⟨h.1, (ih h.2).1⟩, (ih h.2).2⟩

end Tokens

namespace Lexer

theorem Spells.proper {kind : Token.Kind} {spelling : Bytes} (h : Spells kind spelling) (start : Position) :
    (token kind spelling start).Proper := by
  refine ⟨h.ne_eof, fun hint hident hcond => ?_⟩
  cases h with
  | int => exact absurd rfl hint
  | word _ _ hword =>
      unfold Token.Kind.ofWord at hword
      split at hword
      · exact absurd hword hcond
      · exact absurd hword hident
  | sign _ hname => exact hname

theorem lexeme_eq_ok {file : String} {c : Cursor} {b : UInt8} {rest : Bytes} {t : Token} (hrest : c.rest = b :: rest)
    (h : (lexeme file c).1 = .ok t) : ∃ kind spelling start, Spells kind spelling ∧ t = token kind spelling start := by
  simp only [lexeme, hrest] at h
  split at h
  · cases h
  · rename_i hmunch
    exact ⟨_, _, _, munch_spells hmunch, (Except.ok.inj h).symm⟩

theorem lexeme_proper {file : String} {c : Cursor} {b : UInt8} {rest : Bytes} {t : Token} (hrest : c.rest = b :: rest)
    (h : (lexeme file c).1 = .ok t) : t.Proper := by
  obtain ⟨kind, spelling, start, hspells, rfl⟩ := lexeme_eq_ok hrest h
  exact hspells.proper start

theorem stream_proper (file : String) (c : Cursor) : (stream file c).Proper := by
  induction c using stream.induct file with
  | case1 c hrest =>
      rw [stream_done hrest]
      rfl
  | case2 c b rest hrest e he =>
      rw [stream_fault (by rw [hrest]; simp) he]
      trivial
  | case3 c b rest hrest t ht ih =>
      rw [stream_more (by rw [hrest]; simp) (Prod.ext ht rfl)]
      exact ⟨lexeme_proper hrest ht, ih⟩

/-- Tokens of a stream carry their spelling. -/
theorem spells_of_stream {file : String} {c : Cursor} {l : List Token} {ts : Tokens}
    (h : stream file c = Tokens.prepend l ts) :
    ∀ t ∈ l, ∃ spelling, Spells t.kind spelling ∧ t.literal = Bytes.ascii spelling := by
  induction l generalizing c with
  | nil => simp
  | cons t l ih =>
      rw [Tokens.prepend_cons, stream] at h
      split at h
      · cases h
      rename_i hrest
      split at h
      · cases h
      rename_i t' ht
      obtain ⟨rfl, htail⟩ := Tokens.more.inj h
      refine List.forall_mem_cons.mpr ⟨?_, ih htail⟩
      obtain ⟨kind, spelling, start, hspells, rfl⟩ := lexeme_eq_ok hrest ht
      exact ⟨spelling, hspells, rfl⟩

theorem size_stream_le (file : String) (c : Cursor) : (stream file c).size ≤ c.rest.length := by
  induction c using stream.induct file with
  | case1 c hrest =>
      rw [stream_done hrest]
      exact Nat.zero_le _
  | case2 c b rest hrest e he =>
      rw [stream_fault (by rw [hrest]; simp) he]
      exact Nat.zero_le _
  | case3 c b rest hrest t ht ih =>
      rw [stream_more (by rw [hrest]; simp) (Prod.ext ht rfl)]
      exact Nat.lt_of_le_of_lt ih (next_length_lt file hrest)

end Lexer

end TierCalc
