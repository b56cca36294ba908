import TierCalc.Proofs.Expr.Exactness
import TierCalc.Proofs.Expr.Shape

/-!
# Canonical forms

The canonical form of an expression that was read from a source tells the expression, up to positions. It is not
written in the grammar of sources: an assignment has no parentheses around it, even as an operand, so that `(x = 1 + 2)`
is the sum of an assignment and a literal.

The first characters of a canonical form tell what kind of node is written (`Head.of`), and the rest is read off part by
part, whatever stands behind it (`Legible.readable`). This needs names that are words, and literals that are numerals,
as all that are read from a source are (`legible_of_parse`).
-/

namespace TierCalc

namespace Expr

/-! ### Trees that can be read back -/

/-- The characters of names and numerals. -/
def wordChar (c : Char) : Bool :=
  ('A' ≤ c && c ≤ 'Z') || ('a' ≤ c && c ≤ 'z') || c.isDigit || c == '_'

theorem isDigit_iff_toNat {c : Char} : c.isDigit = true ↔ 48 ≤ c.toNat ∧ c.toNat ≤ 57 := by
  simp only [Char.isDigit, Bool.and_eq_true, decide_eq_true_eq, ge_iff_le, UInt32.le_iff_toNat_le]
  exact Iff.rfl

theorem wordChar_iff_toNat {c : Char} :
    wordChar c = true ↔ ((65 ≤ c.toNat ∧ c.toNat ≤ 90 ∨ 97 ≤ c.toNat ∧ c.toNat ≤ 122) ∨
      48 ≤ c.toNat ∧ c.toNat ≤ 57) ∨ c.toNat = 95 := by
  have hunderscore : c = '_' ↔ c.toNat = 95 := ⟨fun hc => hc ▸ rfl, fun hc => Char.toNat_inj.mp hc⟩
  simp only [wordChar, Bool.or_eq_true, Bool.and_eq_true, decide_eq_true_eq, beq_iff_eq, hunderscore,
    isDigit_iff_toNat, Char.le_def, UInt32.le_iff_toNat_le]
  exact Iff.rfl

theorem wordChar_of_isDigit {c : Char} (h : c.isDigit = true) : wordChar c = true :=
  wordChar_iff_toNat.mpr (.inl (.inr (isDigit_iff_toNat.mp h)))

theorem wordChar_of_isWord {b : UInt8} (h : Lexer.isWord b = true) : wordChar (Char.ofNat b.toNat) = true := by
  rw [Lexer.isWord_iff, Lexer.isLetter_iff, Lexer.isDigit_iff] at h
  rw [wordChar_iff_toNat, Bytes.toNat_char]
  omega

/-- A word that is no numeral and not the keyword. -/
structure IsName (x : String) : Prop where
  starts : ∃ c cs, x.toList = c :: cs ∧ c.isDigit = false
  word : ∀ c ∈ x.toList, wordChar c = true
  free : x.toList ≠ ['i', 'f']

/-- The trees without positions whose names are names, whose literals have their values, and whose operators exist. -/
inductive Legible : Expr → Prop
  | int {s : String} {v : Int64} (h : Parser.literalValue? s = some v) : Legible (.int default s v)
  | name {x : String} (hx : IsName x) : Legible (.ident default x)
  | binary {l r : Expr} (o : Operator) (hl : Legible l) (hr : Legible r) : Legible (.binary l default o.number r)
  | assign {x : String} {v : Expr} (hx : IsName x) (hv : Legible v) : Legible (.assign default x default v)
  | call {x : String} {args : List Expr} (hx : IsName x) (hargs : ∀ a ∈ args, Legible a) :
      Legible (.call default x default args default)
  | cond {c y n : Expr} (hc : Legible c) (hy : Legible y) (hn : Legible n) :
      Legible (.cond default default c y n default)

/-! ### What is read from a source is legible -/

section
open Grammar

variable {p : Phrase} {ws : List Terminal} {e : Expr}

theorem target_mem {x : String} (h : Target ws x) : .name x ∈ ws := by
  induction h with
  | name x => exact List.mem_singleton_self _
  | group _ ih => simp [ih]

theorem legible_of_derives (h : Derives Parser.literalValue? p ws e) (hnames : ∀ x, .name x ∈ ws → IsName x) :
    Legible e := by
  induction h with
  | assign ht _ ih =>
      exact .assign (hnames _ (by simp [target_mem ht])) (ih fun x hx => hnames x (by simp [hx]))
  | compared _ ih | single _ ih | unsigned _ ih | uncalled _ ih => exact ih hnames
  | joined o _ _ ihl ihr =>
      exact .binary o (ihl fun x hx => hnames x (by simp [hx])) (ihr fun x hx => hnames x (by simp [hx]))
  | negated _ ih => exact .binary .subtract (.int (by decide)) (ih fun x hx => hnames x (by simp [hx]))
  | call args ht _ ih =>
      refine .call (hnames _ (by simp [target_mem ht])) fun a ha => ?_
      obtain ⟨arg, harg, rfl⟩ := List.mem_map.mp ha
      refine ih arg harg fun x hx => hnames x ?_
      have hmem : .name x ∈ [Terminal.comma].intercalate (args.map (·.1)) :=
        (mem_intercalate (by simp)).mpr ⟨arg.1, List.mem_map_of_mem harg, hx⟩
      simp [hmem]
  | int h => exact .int h
  | name x => exact .name (hnames x (List.mem_singleton_self _))
  | group _ ih => exact ih fun x hx => hnames x (by simp [hx])
  | cond _ _ _ ihc ihy ihn =>
      exact .cond (ihc fun x hx => hnames x (by simp [hx])) (ihy fun x hx => hnames x (by simp [hx]))
        (ihn fun x hx => hnames x (by simp [hx]))

theorem legible_of_sentence (h : Sentence Parser.literalValue? ws e) (hnames : ∀ x, .name x ∈ ws → IsName x) :
    Legible e := by
  cases h with
  | plain h => exact legible_of_derives h hnames
  | closed h => exact legible_of_derives h fun x hx => hnames x (by simp [hx])

theorem isName_of_spells {bs : Bytes} (h : Lexer.Spells .ident bs) : IsName (Bytes.ascii bs) := by
  generalize hkind : Token.Kind.ident = kind at h
  cases h with
  | int => cases hkind
  | @word _ b bs hb hbs hword =>
      subst hkind
      have hdigit : (Char.ofNat b.toNat).isDigit = false := by
        rw [Lexer.isLetter_iff] at hb
        rw [Bool.eq_false_iff, Ne, isDigit_iff_toNat, Bytes.toNat_char]
        omega
      refine ⟨⟨_, _, Bytes.toList_ascii _, hdigit⟩, ?_, ?_⟩
      · intro c hc
        rw [Bytes.toList_ascii] at hc
        obtain ⟨d, hd, rfl⟩ := List.mem_map.mp hc
        rcases List.mem_cons.mp hd with rfl | hd
        · exact wordChar_of_isWord (Lexer.isWord_iff.mpr (.inl hb))
        · exact wordChar_of_isWord (hbs d hd)
      · intro hif
        have hcond : Bytes.ascii (b :: bs) = "if" := String.toList_inj.mp hif
        rw [hcond] at hword
        cases hword
  | sign hnot =>
      subst hkind
      simp at hnot

/-- Trees that are read from a source are legible. -/
theorem legible_of_parse {s : Source} {o : ParseOptions} (h : parse s o = .ok e) : Legible e.unplaced := by
  have hproper : s.tokens.Proper := Lexer.stream_proper s.file s.cursor
  obtain ⟨tokens, last, htokens, hsentence⟩ := Parser.whole_sentence hproper (parse_eq_ok.mp h)
  refine legible_of_sentence hsentence fun x hx => ?_
  obtain ⟨t, ht, hname⟩ := List.mem_map.mp hx
  obtain ⟨hkind, rfl⟩ := Terminal.ofToken_eq_name.mp hname
  obtain ⟨spelling, hspells, hliteral⟩ := Lexer.spells_of_stream htokens t ht
  rw [hkind] at hspells
  rw [hliteral]
  exact isName_of_spells hspells

end

/-! ### The front of a canonical form -/

/-- What the first characters of a canonical form tell. -/
inductive Head where
  | number (word : List Char)
  | name (word : List Char)
  | group
  | assign (word : List Char)
  | call (word : List Char)
  | cond
deriving DecidableEq

/-- The kind of node that a text starts with: the word in front of it, if any, and what stands behind the word. -/
def Head.of (cs : List Char) : Head :=
  match cs.takeWhile wordChar with
  | [] => group
  | c :: word =>
      let rest := cs.dropWhile wordChar
      if c.isDigit then number (c :: word)
      else if rest.head? = some '(' then if c :: word = ['i', 'f'] then cond else call (c :: word)
      else if " = ".toList <+: rest then assign (c :: word)
      else name (c :: word)

/-- The kind of a node, with its own word. -/
def head : Expr → Head
  | int _ s _ => .number s.toList
  | ident _ x => .name x.toList
  | binary .. => .group
  | assign _ x _ _ => .assign x.toList
  | call _ x _ _ _ => .call x.toList
  | cond .. => .cond

/-- A text that does not continue a canonical form in front of it. -/
structure Closed (t : List Char) : Prop where
  apart : ∀ c ∈ t.head?, wordChar c = false
  uncalled : t.head? ≠ some '('
  unassigned : ¬ " = ".toList <+: t

theorem closed_nil : Closed [] := ⟨by simp, by simp, by simp⟩

theorem closed_rparen (t : List Char) : Closed (')' :: t) :=
  ⟨by simp; decide, by simp, by simp⟩

theorem closed_comma (t : List Char) : Closed (", ".toList ++ t) :=
  ⟨by simp; decide, by simp, by simp⟩

theorem closed_symbol (o : Operator) (t : List Char) : Closed (' ' :: (o.symbol.toList ++ ' ' :: t)) := by
  refine ⟨by simp; decide, by simp, ?_⟩
  cases o <;> simp [Operator.symbol]

section
variable {w t u : List Char} {x s : String} {v : Int64} {e : Expr}

theorem takeWhile_word (hw : ∀ c ∈ w, wordChar c = true) (ht : ∀ c ∈ t.head?, wordChar c = false) :
    (w ++ t).takeWhile wordChar = w ∧ (w ++ t).dropWhile wordChar = t := by
  rw [List.takeWhile_append_of_pos hw, List.dropWhile_append_of_pos hw]
  cases t with
  | nil => simp
  | cons c t =>
      have hc := ht c rfl
      simp [hc]

theorem isDigit_of_digitValue? {c : Char} {d : Nat} (h : Numeral.digitValue? 10 c = some d) : c.isDigit = true := by
  obtain ⟨hvalue, hlt⟩ := Option.filter_eq_some_iff.mp h
  have hlt : d < 10 := of_decide_eq_true hlt
  split_ifs at hvalue with hdigit hlower hupper
  · exact isDigit_iff_toNat.mpr hdigit
  · have hc : 97 ≤ c.toNat := hlower.1
    have hd := Option.some.inj hvalue
    omega
  · have hc : 65 ≤ c.toNat := hupper.1
    have hd := Option.some.inj hvalue
    omega

theorem isDigit_of_ofDigits? {acc n : Nat} {cs : List Char} (h : Numeral.ofDigits? 10 acc cs = some n) :
    ∀ c ∈ cs, c.isDigit = true := by
  induction cs generalizing acc with
  | nil => simp
  | cons c cs ih =>
      rw [Numeral.ofDigits?] at h
      split at h
      · cases h
      · rename_i hd
        exact List.forall_mem_cons.mpr ⟨isDigit_of_digitValue? hd, ih h⟩

theorem digits_of_literalValue? (h : Parser.literalValue? s = some v) :
    ∃ c cs, s.toList = c :: cs ∧ c.isDigit = true ∧ ∀ d ∈ s.toList, wordChar d = true := by
  obtain ⟨⟨n, hn, -⟩, -⟩ := Parser.literalValue?_eq_some.mp h
  unfold Numeral.nat? at hn
  split at hn
  · cases hn
  · rename_i hne
    have hdigits := isDigit_of_ofDigits? hn
    obtain ⟨c, cs, hs⟩ := List.exists_cons_of_ne_nil hne
    exact ⟨c, cs, hs, hdigits c (hs ▸ List.mem_cons_self), fun d hd => wordChar_of_isDigit (hdigits d hd)⟩

theorem head_of_number (h : Parser.literalValue? s = some v) (ht : ∀ c ∈ t.head?, wordChar c = false) :
    Head.of (s.toList ++ t) = .number s.toList := by
  obtain ⟨c, cs, hs, hdigit, hword⟩ := digits_of_literalValue? h
  rw [Head.of, (takeWhile_word hword ht).1, hs]
  simp [hdigit]

theorem head_of_name (hx : IsName x) (ht : ∀ c ∈ t.head?, wordChar c = false) :
    Head.of (x.toList ++ t) =
      if t.head? = some '(' then .call x.toList else if " = ".toList <+: t then .assign x.toList
      else .name x.toList := by
  obtain ⟨c, cs, hs, hdigit⟩ := hx.starts
  obtain ⟨hword, hrest⟩ := takeWhile_word hx.word ht
  have hfree := hx.free
  rw [Head.of, hword, hrest]
  rw [hs] at hfree ⊢
  simp only [hdigit, Bool.false_eq_true, if_false, if_neg hfree]

/-- The front of a canonical form tells its node, if what follows does not continue it. -/
theorem Legible.head_of_chars (h : Legible e) (ht : Closed t) : Head.of (e.chars ++ t) = e.head := by
  cases h with
  | int h => exact head_of_number h ht.apart
  | name hx => rw [chars, head_of_name hx ht.apart, if_neg ht.uncalled, if_neg ht.unassigned, head]
  | binary => rfl
  | assign hx =>
      rw [chars, List.append_assoc, head_of_name hx (by simp; decide), if_neg (by simp), if_pos (by simp), head]
  | call hx =>
      rw [chars, List.append_assoc, head_of_name hx (by simp; decide), if_pos (by simp), head]
  | cond => rfl

theorem head_eq_of_chars {e' : Expr} (h : Legible e) (h' : Legible e') (ht : Closed t) (hu : Closed u)
    (heq : e.chars ++ t = e'.chars ++ u) : e.head = e'.head := by
  rw [← h.head_of_chars ht, heq, h'.head_of_chars hu]

/-! ### Reading a canonical form -/

/-- A canonical form is told from all others, whatever stands behind them. -/
def Readable (e : Expr) : Prop :=
  ∀ ⦃e' : Expr⦄ ⦃t u : List Char⦄, Legible e' → Closed t → Closed u → e.chars ++ t = e'.chars ++ u → e = e' ∧ t = u

theorem symbolOf_number (o : Operator) : Operator.symbolOf o.number = o.symbol := by
  cases o <;> rfl

/-- Symbols have no blanks, so they end at the first one. -/
theorem symbol_inj {o o' : Operator} (h : o.symbol.toList ++ ' ' :: t = o'.symbol.toList ++ ' ' :: u) :
    o = o' ∧ t = u := by
  have hword (o : Operator) (t : List Char) : (o.symbol.toList ++ ' ' :: t).takeWhile (· != ' ') = o.symbol.toList := by
    have hblank : o.symbol.toList.all (· != ' ') = true := by cases o <;> rfl
    rw [List.takeWhile_append_of_pos (List.all_eq_true.mp hblank)]
    simp
  have hsymbol : o.symbol.toList = o'.symbol.toList := by rw [← hword o t, ← hword o' u, h]
  have ho : o = o' := by
    have hof (o : Operator) : Operator.ofSymbol? o.symbol = some o := by cases o <;> decide
    exact Option.some.inj (by rw [← hof o, ← hof o', String.toList_inj.mp hsymbol])
  subst ho
  exact ⟨rfl, List.tail_eq_of_cons_eq (List.append_cancel_left h)⟩

theorem argChars_cons (a : Expr) (rest : List Expr) :
    argChars (a :: rest) = a.chars ++ rest.flatMap fun b => ", ".toList ++ b.chars := by
  induction rest generalizing a with
  | nil => simp [argChars]
  | cons b rest ih => rw [argChars, ih, List.flatMap_cons, List.append_assoc]

/-- No canonical form starts as the end of a list does. -/
theorem Legible.starts (h : Legible e) : (e.chars ++ t).head? ≠ some ')' := by
  have hword {s : String} {c : Char} {cs : List Char} (hs : s.toList = c :: cs) (hc : wordChar c = true)
      (t : List Char) : (s.toList ++ t).head? ≠ some ')' := by
    rw [hs]
    rintro ⟨⟩
    cases hc
  have hname {x : String} (hx : IsName x) (t : List Char) : (x.toList ++ t).head? ≠ some ')' := by
    obtain ⟨c, cs, hs, -⟩ := hx.starts
    exact hword hs (hx.word c (hs ▸ List.mem_cons_self)) t
  cases h with
  | int h =>
      obtain ⟨c, cs, hs, hdigit, -⟩ := digits_of_literalValue? h
      exact hword hs (wordChar_of_isDigit hdigit) t
  | name hx => exact hname hx t
  | binary | cond => simp [chars]
  | assign hx | call hx =>
      rw [chars, List.append_assoc]
      exact hname hx _

theorem closed_more (rest : List Expr) (t : List Char) :
    Closed ((rest.flatMap fun b => ", ".toList ++ b.chars) ++ ')' :: t) := by
  cases rest with
  | nil => exact closed_rparen t
  | cons b rest =>
      rw [List.flatMap_cons, List.append_assoc, List.append_assoc]
      exact closed_comma _

theorem more_inj {rest rest' : List Expr} (hread : ∀ a ∈ rest, Readable a) (hrest' : ∀ a ∈ rest', Legible a)
    (h : (rest.flatMap fun b => ", ".toList ++ b.chars) ++ ')' :: t =
      (rest'.flatMap fun b => ", ".toList ++ b.chars) ++ ')' :: u) : rest = rest' ∧ t = u := by
  induction rest generalizing rest' with
  | nil =>
      cases rest' with
      | nil => exact ⟨rfl, List.tail_eq_of_cons_eq h⟩
      | cons b rest' => cases h
  | cons a rest ih =>
      cases rest' with
      | nil => cases h
      | cons b rest' =>
          simp only [List.flatMap_cons, List.append_assoc, List.append_cancel_left_eq] at h
          obtain ⟨rfl, htail⟩ := hread a List.mem_cons_self (hrest' b List.mem_cons_self) (closed_more rest t)
            (closed_more rest' u) h
          obtain ⟨rfl, rfl⟩ := ih (fun a ha => hread a (List.mem_cons_of_mem _ ha))
            (fun a ha => hrest' a (List.mem_cons_of_mem _ ha)) htail
          exact ⟨rfl, rfl⟩

theorem args_inj {args args' : List Expr} (hread : ∀ a ∈ args, Readable a) (hargs : ∀ a ∈ args, Legible a)
    (hargs' : ∀ a ∈ args', Legible a) (h : argChars args ++ ')' :: t = argChars args' ++ ')' :: u) :
    args = args' ∧ t = u := by
  match args, args' with
  | [], [] => exact ⟨rfl, List.tail_eq_of_cons_eq h⟩
  | [], a :: rest =>
      rw [argChars_cons, List.append_assoc] at h
      exact absurd (congrArg List.head? h).symm (hargs' a List.mem_cons_self).starts
  | a :: rest, [] =>
      rw [argChars_cons, List.append_assoc] at h
      exact absurd (congrArg List.head? h) (hargs a List.mem_cons_self).starts
  | a :: rest, b :: rest' =>
      rw [argChars_cons, argChars_cons, List.append_assoc, List.append_assoc] at h
      obtain ⟨rfl, htail⟩ := hread a List.mem_cons_self (hargs' b List.mem_cons_self) (closed_more rest t)
        (closed_more rest' u) h
      obtain ⟨rfl, rfl⟩ := more_inj (fun a ha => hread a (List.mem_cons_of_mem _ ha))
        (fun a ha => hargs' a (List.mem_cons_of_mem _ ha)) htail
      exact ⟨rfl, rfl⟩

/-- Legible trees can be read back from their canonical forms. -/
theorem Legible.readable (h : Legible e) : Readable e := by
  induction h with
  | @int s v h =>
      intro e' t u he' ht hu heq
      have hhead := head_eq_of_chars (.int h) he' ht hu heq
      cases he' with
      | @int s' v' h' =>
          obtain rfl : s = s' := String.toList_inj.mp (Head.number.inj hhead)
          obtain rfl := Option.some.inj (h.symm.trans h')
          exact ⟨rfl, List.append_cancel_left heq⟩
      | _ => cases hhead
  | @name x hx =>
      intro e' t u he' ht hu heq
      have hhead := head_eq_of_chars (.name hx) he' ht hu heq
      cases he' with
      | @name x' hx' =>
          obtain rfl : x = x' := String.toList_inj.mp (Head.name.inj hhead)
          exact ⟨rfl, List.append_cancel_left heq⟩
      | _ => cases hhead
  | binary o hl hr ihl ihr =>
      intro e' t u he' ht hu heq
      have hhead := head_eq_of_chars (.binary o hl hr) he' ht hu heq
      cases he' with
      | binary o' hl' hr' =>
          simp only [chars, symbolOf_number, List.cons_append, List.append_assoc, List.cons.injEq, true_and,
            List.nil_append] at heq
          obtain ⟨rfl, hsymbol⟩ := ihl hl' (closed_symbol o _) (closed_symbol o' _) heq
          obtain ⟨rfl, hright⟩ := symbol_inj (List.tail_eq_of_cons_eq hsymbol)
          obtain ⟨rfl, htail⟩ := ihr hr' (closed_rparen t) (closed_rparen u) hright
          exact ⟨rfl, List.tail_eq_of_cons_eq htail⟩
      | _ => cases hhead
  | @assign x v hx hv ih =>
      intro e' t u he' ht hu heq
      have hhead := head_eq_of_chars (.assign hx hv) he' ht hu heq
      cases he' with
      | @assign x' v' hx' hv' =>
          obtain rfl : x = x' := String.toList_inj.mp (Head.assign.inj hhead)
          simp only [chars, List.append_assoc, List.append_cancel_left_eq] at heq
          obtain ⟨rfl, rfl⟩ := ih hv' ht hu heq
          exact ⟨rfl, rfl⟩
      | _ => cases hhead
  | @call x args hx hargs ih =>
      intro e' t u he' ht hu heq
      have hhead := head_eq_of_chars (.call hx hargs) he' ht hu heq
      cases he' with
      | @call x' args' hx' hargs' =>
          obtain rfl : x = x' := String.toList_inj.mp (Head.call.inj hhead)
          simp only [chars, List.append_assoc, List.append_cancel_left_eq, List.cons_append, List.nil_append,
            List.cons.injEq, true_and] at heq
          obtain ⟨rfl, rfl⟩ := args_inj ih hargs hargs' heq
          exact ⟨rfl, rfl⟩
      | _ => cases hhead
  | cond hc hy hn ihc ihy ihn =>
      intro e' t u he' ht hu heq
      have hhead := head_eq_of_chars (.cond hc hy hn) he' ht hu heq
      cases he' with
      | cond hc' hy' hn' =>
          simp only [chars, List.append_assoc, List.append_cancel_left_eq, List.cons_append, List.nil_append] at heq
          obtain ⟨rfl, hyes⟩ := ihc hc' (closed_comma _) (closed_comma _) heq
          obtain ⟨rfl, hno⟩ := ihy hy' (closed_comma _) (closed_comma _) (List.append_cancel_left hyes)
          obtain ⟨rfl, htail⟩ := ihn hn' (closed_rparen t) (closed_rparen u) (List.append_cancel_left hno)
          exact ⟨rfl, List.tail_eq_of_cons_eq htail⟩
      | _ => cases hhead

end

/-! ### Positions do not show -/

theorem chars_unplaced (e : Expr) : e.unplaced.chars = e.chars := by
  induction e using nodeInduction with
  | int => rfl
  | ident => rfl
  | binary l _ _ r ihl ihr => rw [unplaced, chars, chars, ihl, ihr]
  | assign _ _ _ v ih => rw [unplaced, chars, chars, ih]
  | call _ _ _ args _ ih =>
      have hargs : argChars (args.map unplaced) = argChars args := by
        cases args with
        | nil => rfl
        | cons a rest =>
            rw [List.map_cons, argChars_cons, argChars_cons, List.flatMap_map, ih a List.mem_cons_self]
            exact congrArg _ (List.flatMap_congr fun b hb => congrArg _ (ih b (List.mem_cons_of_mem _ hb)))
      rw [unplaced, chars, chars, argsUnplaced_eq, hargs]
  | cond _ _ c y n _ ihc ihy ihn => rw [unplaced, chars, chars, ihc, ihy, ihn]

theorem shape_unplaced (e : Expr) : e.unplaced.shape = e.shape := by
  induction e using nodeInduction with
  | int => rfl
  | ident => rfl
  | binary l _ _ r ihl ihr => rw [unplaced, shape, shape, ihl, ihr]
  | assign _ _ _ v ih => rw [unplaced, shape, shape, ih]
  | call _ _ _ args _ ih =>
      rw [unplaced, shape, shape, argsUnplaced_eq, argShapes_eq, argShapes_eq, List.map_map]
      exact congrArg (call default _ default · default) (List.map_congr_left ih)
  | cond _ _ c y n _ ihc ihy ihn => rw [unplaced, shape, shape, ihc, ihy, ihn]

theorem render_inj {e e' : Expr} : e.render = e'.render ↔ e.unplaced.chars = e'.unplaced.chars := by
  rw [render_eq, render_eq, String.ofList_inj, chars_unplaced, chars_unplaced]

theorem fingerprint_of_unplaced {e e' : Expr} (h : e.unplaced = e'.unplaced) : e.fingerprint = e'.fingerprint := by
  rw [← fingerprint_shape e, ← fingerprint_shape e', ← shape_unplaced e, ← shape_unplaced e', h]

/-- Expressions that are read from two sources have one canonical form exactly if they are the same up to positions, and
then they have one fingerprint. -/
theorem render_identifies {s s' : Source} {o o' : ParseOptions} {e e' : Expr} (h : parse s o = .ok e)
    (h' : parse s' o' = .ok e') :
    (e.render = e'.render ↔ e.unplaced = e'.unplaced) ∧ (e.render = e'.render → e.fingerprint = e'.fingerprint) := by
  have hiff : e.render = e'.render ↔ e.unplaced = e'.unplaced := by
    rw [render_inj]
    refine ⟨fun hchars => ?_, fun heq => by rw [heq]⟩
    have hread := (legible_of_parse h).readable (legible_of_parse h') closed_nil closed_nil
    exact (hread (by rw [hchars])).1
  exact ⟨hiff, fun hrender => fingerprint_of_unplaced (hiff.mp hrender)⟩

/-! ### An assignment as an operand -/

def assignedOperand : Source := ⟨[40, 120, 61, 49, 41, 43, 50], ""⟩

/-- The same with a blank in front and a semicolon at the end. -/
def assignedOperandClosed : Source := ⟨[32, 40, 120, 61, 49, 41, 43, 50, 59], ""⟩

/-- The tree of both, if the name stands at an offset on the first line. -/
def assignedOperandTree (n : Int) : Expr :=
  .binary (.assign { offset := n, column := n } "x" { offset := n + 1, column := n + 1 }
      (.int { offset := n + 2, column := n + 2 } "1" 1))
    { offset := n + 4, column := n + 4 } Operator.add.number (.int { offset := n + 5, column := n + 5 } "2" 2)

theorem parse_assignedOperand : parse assignedOperand { cancelled := false } = .ok (assignedOperandTree 1) := by
  have htokens : assignedOperand.tokens = Tokens.prepend
      [tokenAt 0 .lparen "(", tokenAt 1 .ident "x", tokenAt 2 .assign "=", tokenAt 3 .int "1", tokenAt 4 .rparen ")",
       tokenAt 5 .plus "+", tokenAt 6 .int "2"] (.done (tokenAt 7 .eof "")) := by
    rw [Source.tokens, Lexer.stream_more (by decide) rfl, Lexer.stream_more (by decide) rfl,
      Lexer.stream_more (by decide) rfl, Lexer.stream_more (by decide) rfl, Lexer.stream_more (by decide) rfl,
      Lexer.stream_more (by decide) rfl, Lexer.stream_more (by decide) rfl, Lexer.stream_done (by decide)]
    decide
  rw [parse, htokens]
  rfl

theorem parse_assignedOperandClosed :
    parse assignedOperandClosed { cancelled := false } = .ok (assignedOperandTree 2) := by
  have htokens : assignedOperandClosed.tokens = Tokens.prepend
      [tokenAt 1 .lparen "(", tokenAt 2 .ident "x", tokenAt 3 .assign "=", tokenAt 4 .int "1", tokenAt 5 .rparen ")",
       tokenAt 6 .plus "+", tokenAt 7 .int "2", tokenAt 8 .semicolon ";"] (.done (tokenAt 9 .eof "")) := by
    rw [Source.tokens, Lexer.stream_more (by decide) rfl, Lexer.stream_more (by decide) rfl,
      Lexer.stream_more (by decide) rfl, Lexer.stream_more (by decide) rfl, Lexer.stream_more (by decide) rfl,
      Lexer.stream_more (by decide) rfl, Lexer.stream_more (by decide) rfl, Lexer.stream_more (by decide) rfl,
      Lexer.stream_done (by decide)]
    decide
  rw [parse, htokens]
  rfl

theorem assignedOperand_identified :
    parse assignedOperand { cancelled := false } = .ok (assignedOperandTree 1) ∧
      parse assignedOperandClosed { cancelled := false } = .ok (assignedOperandTree 2) ∧
      (assignedOperandTree 1).render = "(x = 1 + 2)" ∧ (assignedOperandTree 2).render = "(x = 1 + 2)" ∧
      (assignedOperandTree 1).unplaced = (assignedOperandTree 2).unplaced ∧
      (assignedOperandTree 1).fingerprint = (assignedOperandTree 2).fingerprint := by
  have hrender : (assignedOperandTree 1).render = "(x = 1 + 2)" := by decide
  have hrender' : (assignedOperandTree 2).render = "(x = 1 + 2)" := by decide
  obtain ⟨hunplaced, hfingerprint⟩ := render_identifies parse_assignedOperand parse_assignedOperandClosed
  have hsame := hrender.trans hrender'.symm
  exact ⟨parse_assignedOperand, parse_assignedOperandClosed, hrender, hrender', hunplaced.mp hsame, hfingerprint hsame⟩

end Expr

end TierCalc
