import Mathlib
import Primer.Token.Lexer

/-!
# What a piece of the text looks like

The spellings of tokens (`Lexeme`) and what may stand between them (`Gap`), as relations on texts.
`Piece.read` takes the longest of these with which a text begins. It takes none where a comment or
a literal is opened and not closed, and where nothing of the kind begins (`Stuck`).
-/

namespace Primer

/-- One character of a literal between quotes, written plainly or behind a backslash. -/
inductive Glyph (quote : Char) : List Char → Prop
  | plain {c : Char} : c ≠ quote → c ≠ '\\' → c ≠ '\n' → Glyph quote [c]
  | escape {c : Char} : c ≠ '\n' → Glyph quote ['\\', c]

/-- What stands between the quotes of a string. -/
inductive Glyphs : List Char → Prop
  | nil : Glyphs []
  | cons {glyph rest : List Char} : Glyph '"' glyph → Glyphs rest → Glyphs (glyph ++ rest)

/-- The spellings of the tokens, each with its kind and its value. -/
inductive Lexeme : List Char → TokenKind → String → Prop
  | word {c : Char} {cs : List Char} : Piece.isWordStart c → (∀ x ∈ cs, Piece.isWordPart x) →
      Lexeme (c :: cs) (Piece.wordKind (c :: cs)) (String.ofList (c :: cs))
  | whole {c : Char} {cs : List Char} : c.isDigit → (∀ x ∈ cs, x.isDigit) →
      Lexeme (c :: cs) .number (String.ofList (c :: cs))
  | decimal {c d : Char} {cs ds : List Char} : c.isDigit → (∀ x ∈ cs, x.isDigit) → d.isDigit →
      (∀ x ∈ ds, x.isDigit) →
      Lexeme (c :: (cs ++ '.' :: d :: ds)) .number (String.ofList (c :: (cs ++ '.' :: d :: ds)))
  | string {body : List Char} : Glyphs body →
      Lexeme ('"' :: (body ++ ['"'])) .string (String.ofList (Token.unescape body))
  | char {body : List Char} : Glyph '\'' body →
      Lexeme ('\'' :: (body ++ ['\''])) .char (String.ofList (Token.unescape body))
  | mark {spelling : String} {kind : TokenKind} : (spelling, kind) ∈ TokenKind.marks →
      Lexeme spelling.toList kind spelling

/-- What may stand between tokens: white space, or a comment with its end. A comment in marks of
its own ends at the first closing mark. -/
inductive Gap : List Char → Prop
  | blank {c : Char} {cs : List Char} : Text.isBlank c → (∀ x ∈ cs, Text.isBlank x) → Gap (c :: cs)
  | line {cs : List Char} : '\n' ∉ cs → Gap ('/' :: '/' :: cs)
  | block {cs : List Char} : ¬ ['*', '/'] <:+: cs ++ ['*'] → Gap ('/' :: '*' :: (cs ++ ['*', '/']))

/-- A piece of the text is a gap or a token. -/
def Part (text : List Char) : Prop := Gap text ∨ ∃ kind value, Lexeme text kind value

/-- No piece that begins where this one does goes on further. -/
def Longest (text after : List Char) : Prop :=
  ∀ more, more <+: after → Part (text ++ more) → more = []

/-- No piece can be taken here. -/
inductive Stuck : Fault → List Char → Prop
  | unrecognised {c : Char} {rest : List Char} : c ≠ '"' → c ≠ '\'' →
      (∀ text, text <+: c :: rest → ¬ Part text) →
      Stuck (.unrecognisedToken (String.singleton c)) (c :: rest)
  | comment {rest : List Char} : ¬ ['*', '/'] <:+: rest →
      Stuck (.unterminatedLiteral "comment") ('/' :: '*' :: rest)
  | string {rest : List Char} : (∀ body, Glyphs body → ¬ body ++ ['"'] <+: rest) →
      Stuck (.unterminatedLiteral "string") ('"' :: rest)
  | char {rest : List Char} : (∀ body, Glyph '\'' body → ¬ body ++ ['\''] <+: rest) →
      Stuck (.unterminatedLiteral "char") ('\'' :: rest)

namespace Piece

section Extents

variable {test : Char → Bool} {cs ds rest body : List Char} {n : Nat}

theorem run_append (h : ∀ x ∈ cs, test x) : run test (cs ++ ds) = cs.length + run test ds := by
  unfold run
  rw [List.takeWhile_append_of_pos h, List.length_append]

theorem run_eq_zero (h : ∀ x ∈ ds.head?, test x = false) : run test ds = 0 := by
  cases ds with
  | nil => rfl
  | cons d ds => simp [run, h d rfl]

/-- A text is its longest run and a rest that does not go on with it. -/
theorem exists_run (test : Char → Bool) (rest : List Char) :
    ∃ cs ds, rest = cs ++ ds ∧ (∀ x ∈ cs, test x) ∧ ∀ x ∈ ds.head?, test x = false := by
  refine ⟨rest.takeWhile test, rest.dropWhile test, List.takeWhile_append_dropWhile.symm,
    fun x hx => List.mem_takeWhile_imp hx, fun x hx => ?_⟩
  simpa [Option.mem_def.mp hx] using List.head?_dropWhile_not test rest

theorem take_run (h : ∀ x ∈ cs, test x) (h' : ∀ x ∈ ds.head?, test x = false) :
    run test (cs ++ ds) = cs.length ∧ (cs ++ ds).take (run test (cs ++ ds)) = cs := by
  have hn : run test (cs ++ ds) = cs.length := by rw [run_append h, run_eq_zero h']; rfl
  exact ⟨hn, by rw [hn, List.take_left]⟩

/-- Digits in front of a number prolong it. -/
theorem numberRun_append (h : ∀ x ∈ cs, x.isDigit) :
    numberRun (cs ++ ds) = cs.length + numberRun ds := by
  unfold numberRun
  simp only [run_append h, List.drop_append, List.drop_eq_nil_of_le (Nat.le_add_right _ _),
    List.nil_append, Nat.add_sub_cancel_left]
  split
  · split
    · omega
    · rfl
  · rfl

theorem numberRun_decimal {d : Char} (hcs : ∀ x ∈ cs, x.isDigit) (hd : d.isDigit)
    (hds : ∀ x ∈ ds, x.isDigit) :
    numberRun (cs ++ '.' :: d :: ds ++ rest) =
      (cs ++ '.' :: d :: ds).length + run Char.isDigit rest := by
  have hpoint : numberRun ('.' :: d :: (ds ++ rest)) = 2 + run Char.isDigit (ds ++ rest) := by
    unfold numberRun
    have h0 : run Char.isDigit ('.' :: d :: (ds ++ rest)) = 0 := rfl
    simp [h0, hd]
  rw [List.append_assoc, numberRun_append hcs, List.cons_append, List.cons_append, hpoint,
    run_append hds]
  simp only [List.length_append, List.length_cons]
  omega

theorem numberRun_eq_zero (h : ∀ x ∈ ds.head?, x.isDigit = false)
    (h' : ∀ d ∈ ds.tail.head?, ds.head? = some '.' → d.isDigit = false) : numberRun ds = 0 := by
  unfold numberRun
  rw [run_eq_zero h]
  simp only [List.drop_zero]
  split
  · next d rest => rw [if_neg (by simp [h' d rfl rfl])]
  · rfl

theorem commentEnd?_append (h : ¬ ['*', '/'] <:+: cs ++ ['*']) :
    commentEnd? (cs ++ '*' :: '/' :: rest) = some (cs.length + 2) := by
  induction cs with
  | nil => rfl
  | cons c cs ih =>
    have hcs : ¬ ['*', '/'] <:+: cs ++ ['*'] :=
      fun hi => h (hi.trans (List.infix_cons List.infix_rfl))
    have hc : ¬ (c = '*' ∧ (cs ++ '*' :: '/' :: rest).head? = some '/') := by
      rintro ⟨rfl, hd⟩
      cases cs with
      | nil => simp at hd
      | cons d cs =>
        obtain rfl : d = '/' := by simpa using hd
        exact h ⟨[], cs ++ ['*'], rfl⟩
    rw [List.cons_append, commentEnd?, ih hcs]
    · rfl
    · intro tail hc' hd
      exact hc ⟨hc', by rw [hd]; rfl⟩

theorem commentEnd?_eq_none (h : commentEnd? rest = none) : ¬ ['*', '/'] <:+: rest := by
  fun_induction commentEnd? rest with
  | case1 => cases h
  | case2 c rest hne ih =>
    intro hi
    rcases List.infix_cons_iff.mp hi with hp | hi
    · obtain ⟨tail, ht⟩ := hp
      injection ht with hc hr
      exact hne tail hc.symm hr.symm
    · exact ih (Option.map_eq_none_iff.mp h) hi
  | case3 => simp

theorem exists_comment (h : commentEnd? rest = some n) :
    ∃ cs after, rest = cs ++ '*' :: '/' :: after ∧ ¬ ['*', '/'] <:+: cs ++ ['*'] ∧
      n = cs.length + 2 := by
  fun_induction commentEnd? rest generalizing n with
  | case1 after => exact ⟨[], after, rfl, by decide, (Option.some.inj h).symm⟩
  | case2 c rest hne ih =>
    obtain ⟨m, hm, rfl⟩ := Option.map_eq_some_iff.mp h
    obtain ⟨cs, after, rfl, hcs, rfl⟩ := ih hm
    refine ⟨c :: cs, after, rfl, ?_, rfl⟩
    intro hi
    rcases List.infix_cons_iff.mp hi with hp | hi
    · obtain ⟨tail, ht⟩ := hp
      injection ht with hc hr
      cases cs with
      | nil => simp at hr
      | cons d cs =>
        injection hr with hd hr
        exact hne (cs ++ '*' :: '/' :: after) hc.symm (by rw [← hd]; rfl)
    · exact hcs hi
  | case3 => cases h

theorem stringEnd?_append (h : Glyphs body) :
    stringEnd? (body ++ '"' :: rest) = some (body.length + 1) := by
  induction h with
  | nil => rfl
  | @cons glyph body hg hb ih =>
    cases hg with
    | plain hq hs hn => simp [stringEnd?, hs, hn, ih]
    | escape hn => simp [stringEnd?, hn, ih]

theorem exists_glyphs (h : stringEnd? rest = some n) :
    ∃ body after, rest = body ++ '"' :: after ∧ Glyphs body ∧ n = body.length + 1 := by
  fun_induction stringEnd? rest generalizing n with
  | case1 after => exact ⟨[], after, rfl, .nil, (Option.some.inj h).symm⟩
  | case2 rest => cases h
  | case3 c rest hn ih =>
    obtain ⟨m, hm, rfl⟩ := Option.map_eq_some_iff.mp h
    obtain ⟨body, after, rfl, hb, rfl⟩ := ih hm
    exact ⟨'\\' :: c :: body, after, rfl, .cons (.escape hn) hb, rfl⟩
  | case4 c rest hq he hn => cases h
  | case5 c rest hq he hn ih =>
    obtain ⟨m, hm, rfl⟩ := Option.map_eq_some_iff.mp h
    obtain ⟨body, after, rfl, hb, rfl⟩ := ih hm
    simp only [Bool.or_eq_true, decide_eq_true_eq, not_or] at hn
    exact ⟨c :: body, after, rfl, .cons (.plain hq hn.2 hn.1) hb, rfl⟩
  | case6 => cases h

theorem charEnd?_append (h : Glyph '\'' body) :
    charEnd? (body ++ '\'' :: rest) = some (body.length + 1) := by
  cases h with
  | plain hq hs hn => simp [charEnd?, hq, hs, hn]
  | escape hn => simp [charEnd?, hn]

theorem exists_glyph (h : charEnd? rest = some n) :
    ∃ body after, rest = body ++ '\'' :: after ∧ Glyph '\'' body ∧ n = body.length + 1 := by
  unfold charEnd? at h
  split at h
  · next c after =>
    split_ifs at h with hn
    exact ⟨['\\', c], after, rfl, .escape hn, (Option.some.inj h).symm⟩
  · next c after hne =>
    split_ifs at h with hn
    simp only [Bool.or_eq_true, decide_eq_true_eq, not_or] at hn
    exact ⟨[c], after, rfl, .plain hn.1.1 hn.1.2 hn.2, (Option.some.inj h).symm⟩
  · cases h

end Extents

/-- How text begins where only a mark can stand, or a comment. -/
structure Other (c : Char) : Prop where
  blank : Text.isBlank c = false
  word : isWordStart c = false
  digit : c.isDigit = false
  string : c ≠ '"'
  char : c ≠ '\''

section Beginnings

variable {c : Char} {rest cs : List Char}

theorem isBlank_of_isWordPart (h : isWordPart c) : Text.isBlank c = false := by
  -- the parts of words are plain characters, and the only plain blank is the space before them
  have hc : 0x20 < c.toNat ∧ c.toNat < 0x7f := by
    simp only [isWordPart, isWordStart, Char.isAlpha, Char.isUpper, Char.isLower, Char.isDigit,
      Bool.or_eq_true, Bool.and_eq_true, decide_eq_true_eq, beq_iff_eq, UInt32.le_iff_toNat_le,
      ge_iff_le, Char.ext_iff, ← UInt32.toNat_inj] at h
    have : c.toNat = c.val.toNat := rfl
    simp at h
    omega
  unfold Text.isBlank
  simp only [Bool.or_eq_false_iff, Bool.and_eq_false_iff, decide_eq_false_iff_not,
    beq_eq_false_iff_ne]
  omega

theorem isWordPart_of_isWordStart (h : isWordStart c) : isWordPart c := by simp [isWordPart, h]

theorem isWordPart_of_isDigit (h : c.isDigit) : isWordPart c := by simp [isWordPart, h]

theorem isWordStart_of_isDigit (h : c.isDigit) : isWordStart c = false := by
  simp only [isWordStart, Char.isAlpha, Char.isUpper, Char.isLower, Char.isDigit,
      Bool.or_eq_false_iff, Bool.and_eq_true, Bool.and_eq_false_iff, decide_eq_true_eq,
      decide_eq_false_iff_not, beq_eq_false_iff_ne, UInt32.le_iff_toNat_le,
      ge_iff_le, ne_eq, Char.ext_iff, ← UInt32.toNat_inj] at h ⊢
  simp at h ⊢
  omega

theorem ne_slash (h : isWordPart c) : c ≠ '/' := by
  rintro rfl
  cases h

theorem read_blank (h : Text.isBlank c) : read c rest = .ok (gap (run Text.isBlank rest)) :=
  if_pos h

theorem read_word (h : isWordStart c) :
    read c rest = .ok (token (run isWordPart rest) (wordKind (c :: rest.take (run isWordPart rest)))
      (String.ofList (c :: rest.take (run isWordPart rest)))) := by
  have hp := isWordPart_of_isWordStart h
  simp [read, isBlank_of_isWordPart hp, ne_slash hp, h]

theorem read_digit (h : c.isDigit) :
    read c rest = .ok (token (numberRun rest) .number
      (String.ofList (c :: rest.take (numberRun rest)))) := by
  have hp := isWordPart_of_isDigit h
  simp [read, isBlank_of_isWordPart hp, ne_slash hp, isWordStart_of_isDigit h, h]

theorem read_mark (h : Other c)
    (hc : c = '/' → rest.head? ≠ some '/' ∧ rest.head? ≠ some '*') :
    read c rest =
      (mark? (c :: rest)).elim (.error (.unrecognisedToken (String.singleton c))) .ok := by
  have h1 : (c = '/' && rest.head? = some '/') = false := by
    by_cases hs : c = '/' <;> simp [hs, hc]
  have h2 : (c = '/' && rest.head? = some '*') = false := by
    by_cases hs : c = '/' <;> simp [hs, hc]
  simp only [read, h.blank, h1, h2, h.word, h.digit, h.string, h.char, Bool.false_eq_true,
    ↓reduceIte]
  cases mark? (c :: rest) <;> rfl

theorem read_string :
    read '"' rest =
      (stringEnd? rest).elim (.error (.unterminatedLiteral "string"))
        fun n => .ok (literal .string rest n) := by
  unfold read
  cases stringEnd? rest <;> rfl

theorem read_char :
    read '\'' rest =
      (charEnd? rest).elim (.error (.unterminatedLiteral "char"))
        fun n => .ok (literal .char rest n) := by
  unfold read
  cases charEnd? rest <;> rfl

theorem read_block :
    read '/' ('*' :: rest) =
      (commentEnd? rest).elim (.error (.unterminatedLiteral "comment"))
        fun n => .ok (gap (n + 1)) := by
  unfold read
  rw [List.tail_cons]
  cases commentEnd? rest <;> rfl

theorem read_line :
    read '/' ('/' :: rest) = .ok (gap (run (· != '\n') ('/' :: rest))) := rfl

end Beginnings

section Marks

variable {m : String × TokenKind}

theorem other_of_mark (hm : m ∈ TokenKind.marks) : ∃ c cs, m.1.toList = c :: cs ∧ Other c := by
  have hall : ∀ m ∈ TokenKind.marks, m.1.toList.head?.any (fun c => !Text.isBlank c &&
      !isWordStart c && !c.isDigit && c != '"' && c != '\'') := by decide
  obtain ⟨c, hc, hother⟩ := (Option.any_eq_true ..).mp (hall m hm)
  obtain ⟨cs, hcs⟩ := List.head?_eq_some_iff.mp hc
  simp only [Bool.and_eq_true, Bool.not_eq_true', bne_iff_ne] at hother
  obtain ⟨⟨⟨⟨hb, hw⟩, hd⟩, hs⟩, hq⟩ := hother
  exact ⟨c, cs, hcs, hb, hw, hd, hs, hq⟩

theorem marks_pairwise :
    TokenKind.marks.Pairwise fun a b => ¬ a.1.toList <+: b.1.toList := by decide

/-- The only mark that begins as a comment does is a single character. -/
theorem eq_slash (hm : m ∈ TokenKind.marks) (h : m.1.toList.head? = some '/') :
    m.1.toList = ['/'] := by
  have hall : ∀ m ∈ TokenKind.marks, m.1.toList.head? = some '/' → m.1.toList = ['/'] := by decide
  exact hall m hm h

/-- Where a mark stands, the mark that is found is no shorter. -/
theorem exists_mark {text : List Char} (hm : m ∈ TokenKind.marks) (h : m.1.toList <+: text) :
    ∃ l ∈ TokenKind.marks, l.1.toList <+: text ∧ m.1.length ≤ l.1.length ∧
      mark? text = some (token (l.1.length - 1) l.2 l.1) := by
  have hp : m.1.toList.isPrefixOf text := List.isPrefixOf_iff_prefix.mpr h
  obtain ⟨l, hl⟩ : ∃ l, TokenKind.marks.find? (fun m => m.1.toList.isPrefixOf text) = some l :=
    Option.isSome_iff_exists.mp (List.find?_isSome.mpr ⟨m, hm, hp⟩)
  obtain ⟨hlp, before, behind, hsplit, hbefore⟩ := List.find?_eq_some_iff_append.mp hl
  have hlt : l.1.toList <+: text := List.isPrefixOf_iff_prefix.mp hlp
  refine ⟨l, List.mem_of_find?_eq_some hl, hlt, ?_, by unfold mark?; rw [hl]; rfl⟩
  rw [hsplit, List.mem_append, List.mem_cons] at hm
  rcases hm with hm | rfl | hm
  · simpa [hp] using hbefore m hm
  · exact Nat.le_refl _
  · by_contra hlen
    have hle : l.1.toList.length ≤ m.1.toList.length := by
      rw [String.length_toList, String.length_toList]
      omega
    have hpair := hsplit ▸ marks_pairwise
    exact (List.pairwise_cons.mp (List.pairwise_append.mp hpair).2.1).1 m hm
      (List.prefix_of_prefix_length_le hlt h hle)

end Marks

/-- What is taken at the beginning of a text is a piece, and only where it is stuck none is. -/
inductive Taken (c : Char) : List Char → Except Fault Piece → Prop
  | gap {cs after : List Char} : Gap (c :: cs) → Taken c (cs ++ after) (.ok (gap cs.length))
  | token {cs after : List Char} {kind : TokenKind} {value : String} :
      Lexeme (c :: cs) kind value → Taken c (cs ++ after) (.ok (token cs.length kind value))
  | stuck {rest : List Char} {fault : Fault} : Stuck fault (c :: rest) →
      Taken c rest (.error fault)

section Taking

variable {c : Char} {rest cs after body : List Char} {piece : Piece} {fault : Fault}

theorem taken_blank (h : Text.isBlank c) : Taken c rest (read c rest) := by
  rw [read_blank h]
  obtain ⟨cs, after, rfl, hcs, hafter⟩ := exists_run Text.isBlank rest
  rw [(take_run hcs hafter).1]
  exact .gap (.blank h hcs)

theorem taken_word (h : isWordStart c) : Taken c rest (read c rest) := by
  rw [read_word h]
  obtain ⟨cs, after, rfl, hcs, hafter⟩ := exists_run isWordPart rest
  rw [(take_run hcs hafter).2, (take_run hcs hafter).1]
  exact .token (.word h hcs)

theorem taken_digit (h : c.isDigit) : Taken c rest (read c rest) := by
  rw [read_digit h]
  obtain ⟨cs, ds, rfl, hcs, hds⟩ := exists_run Char.isDigit rest
  by_cases hpoint : ∃ d es, ds = '.' :: d :: es ∧ d.isDigit
  · obtain ⟨d, es, rfl, hd⟩ := hpoint
    obtain ⟨fs, after, rfl, hfs, hafter⟩ := exists_run Char.isDigit es
    rw [show cs ++ '.' :: d :: (fs ++ after) = cs ++ '.' :: d :: fs ++ after by simp,
      numberRun_decimal hcs hd hfs, run_eq_zero hafter, Nat.add_zero, List.take_left]
    exact .token (.decimal h hcs hd hfs)
  · have hzero : numberRun ds = 0 := by
      refine numberRun_eq_zero hds fun d hd hhead => ?_
      obtain ⟨tail, rfl⟩ := List.head?_eq_some_iff.mp hhead
      obtain ⟨es, rfl⟩ := List.head?_eq_some_iff.mp hd
      exact Bool.eq_false_iff.mpr fun h => hpoint ⟨d, es, rfl, h⟩
    rw [numberRun_append hcs, hzero, Nat.add_zero, List.take_left]
    exact .token (.whole h hcs)

theorem literal_eq (kind : TokenKind) (body : List Char) (quote : Char) (after : List Char) :
    literal kind (body ++ quote :: after) (body.length + 1) =
      token (body ++ [quote]).length kind (String.ofList (Token.unescape body)) := by
  simp [literal]

theorem taken_string : Taken '"' rest (read '"' rest) := by
  rw [read_string]
  rcases hend : stringEnd? rest with _ | n
  · refine .stuck (.string fun body hbody => ?_)
    rintro ⟨after, rfl⟩
    rw [List.append_assoc, List.singleton_append, stringEnd?_append hbody] at hend
    cases hend
  · obtain ⟨body, after, rfl, hbody, rfl⟩ := exists_glyphs hend
    rw [Option.elim_some, literal_eq, List.append_cons]
    exact .token (.string hbody)

theorem taken_char : Taken '\'' rest (read '\'' rest) := by
  rw [read_char]
  rcases hend : charEnd? rest with _ | n
  · refine .stuck (.char fun body hbody => ?_)
    rintro ⟨after, rfl⟩
    rw [List.append_assoc, List.singleton_append, charEnd?_append hbody] at hend
    cases hend
  · obtain ⟨body, after, rfl, hbody, rfl⟩ := exists_glyph hend
    rw [Option.elim_some, literal_eq, List.append_cons]
    exact .token (.char hbody)

theorem taken_line : Taken '/' ('/' :: rest) (read '/' ('/' :: rest)) := by
  rw [read_line]
  obtain ⟨cs, after, rfl, hcs, hafter⟩ := exists_run (· != '\n') rest
  have hcs' : ∀ x ∈ '/' :: cs, (x != '\n') = true := List.forall_mem_cons.mpr ⟨rfl, hcs⟩
  rw [← List.cons_append, (take_run hcs' hafter).1]
  exact .gap (.line fun hn => absurd (hcs _ hn) (by decide))

theorem taken_block : Taken '/' ('*' :: rest) (read '/' ('*' :: rest)) := by
  rw [read_block]
  rcases hend : commentEnd? rest with _ | n
  · exact .stuck (.comment (commentEnd?_eq_none hend))
  · obtain ⟨cs, after, rfl, hcs, rfl⟩ := exists_comment hend
    have hlen : cs.length + 2 + 1 = ('*' :: (cs ++ ['*', '/'])).length := by simp
    rw [Option.elim_some, hlen,
      show '*' :: (cs ++ '*' :: '/' :: after) = '*' :: (cs ++ ['*', '/']) ++ after by simp]
    exact .gap (.block hcs)

/-- Where the text begins with no other piece, a piece is a mark or a comment. -/
theorem mark_of_part (h : Other c) (hp : Part (c :: cs)) :
    (∃ m ∈ TokenKind.marks, m.1.toList = c :: cs) ∨
      c = '/' ∧ (cs.head? = some '/' ∨ cs.head? = some '*') := by
  rcases hp with hg | ⟨kind, value, hl⟩
  · cases hg with
    | blank hb => simp [h.blank] at hb
    | line => exact .inr ⟨rfl, .inl rfl⟩
    | block => exact .inr ⟨rfl, .inr rfl⟩
  · generalize ht : c :: cs = text at hl
    cases hl with
    | word hw => cases ht; simp [h.word] at hw
    | whole hd => cases ht; simp [h.digit] at hd
    | decimal hd => cases ht; simp [h.digit] at hd
    | string => cases ht; exact absurd rfl h.string
    | char => cases ht; exact absurd rfl h.char
    | mark hm => exact .inl ⟨_, hm, rfl⟩

theorem part_ne_nil {text : List Char} (h : Part text) : text ≠ [] := by
  rcases h with hg | ⟨kind, value, hl⟩
  · cases hg <;> simp
  · cases hl with
    | mark hm =>
      obtain ⟨c, cs, hc, -⟩ := other_of_mark hm
      exact hc ▸ List.cons_ne_nil c cs
    | _ => simp

theorem taken_mark (h : Other c)
    (hc : c = '/' → rest.head? ≠ some '/' ∧ rest.head? ≠ some '*') :
    Taken c rest (read c rest) := by
  rw [read_mark h hc]
  rcases hfind : mark? (c :: rest) with _ | piece
  · refine .stuck (.unrecognised h.string h.char fun text hpre hpart => ?_)
    obtain ⟨cs, rfl⟩ : ∃ cs, text = c :: cs := by
      cases text with
      | nil => exact absurd rfl (part_ne_nil hpart)
      | cons d cs => exact ⟨cs, by rw [(List.cons_prefix_cons.mp hpre).1]⟩
    obtain ⟨after, rfl⟩ := (List.cons_prefix_cons.mp hpre).2
    rcases mark_of_part h hpart with ⟨m, hm, hmc⟩ | ⟨rfl, hs⟩
    · obtain ⟨l, -, -, -, hl⟩ := exists_mark hm (hmc ▸ hpre)
      cases hfind.symm.trans hl
    · cases cs with
      | nil => simp at hs
      | cons d cs => exact hs.elim (hc rfl).1 (hc rfl).2
  · obtain ⟨m, hm, rfl⟩ := Option.map_eq_some_iff.mp hfind
    have hfound := List.find?_some
      (p := fun m : String × TokenKind => m.1.toList.isPrefixOf (c :: rest)) hm
    have hpre := List.isPrefixOf_iff_prefix.mp hfound
    have hmem := List.mem_of_find?_eq_some hm
    obtain ⟨d, cs, hcs, -⟩ := other_of_mark hmem
    rw [hcs] at hpre
    obtain ⟨rfl, after, rfl⟩ := List.cons_prefix_cons.mp hpre
    have hlen : m.1.length - 1 = cs.length := by
      rw [← String.length_toList, hcs]
      rfl
    rw [hlen]
    exact .token (hcs ▸ .mark hmem)

theorem taken (c : Char) (rest : List Char) : Taken c rest (read c rest) := by
  by_cases hb : Text.isBlank c
  · exact taken_blank hb
  by_cases hw : isWordStart c
  · exact taken_word hw
  by_cases hd : c.isDigit
  · exact taken_digit hd
  by_cases hs : c = '"'
  · exact hs ▸ taken_string
  by_cases hq : c = '\''
  · exact hq ▸ taken_char
  have h : Other c := ⟨by simpa using hb, by simpa using hw, by simpa using hd, hs, hq⟩
  by_cases hc : c = '/' → rest.head? ≠ some '/' ∧ rest.head? ≠ some '*'
  · exact taken_mark h hc
  · simp only [ne_eq, Classical.not_imp, not_and_or, not_not] at hc
    obtain ⟨rfl, hc⟩ := hc
    rcases hc with hc | hc <;> obtain ⟨rest, rfl⟩ := List.head?_eq_some_iff.mp hc
    · exact taken_line
    · exact taken_block

theorem length_le_more_of_gap (h : Gap (c :: cs)) (hr : read c (cs ++ after) = .ok piece) :
    cs.length ≤ piece.more := by
  cases h with
  | blank hb hcs =>
    rw [read_blank hb, run_append hcs] at hr
    cases hr
    exact Nat.le_add_right _ _
  | @line cs hcs =>
    have hcs' : ∀ x ∈ '/' :: cs, (x != '\n') = true :=
      List.forall_mem_cons.mpr ⟨rfl, fun x hx => by simpa using ne_of_mem_of_not_mem hx hcs⟩
    rw [List.cons_append, read_line, ← List.cons_append, run_append hcs'] at hr
    cases hr
    exact Nat.le_add_right _ _
  | block hcs =>
    rw [List.cons_append, read_block, List.append_assoc, List.cons_append, List.cons_append,
      commentEnd?_append hcs] at hr
    cases hr
    simp [more]

theorem length_le_more_of_mark {m : String × TokenKind} (hm : m ∈ TokenKind.marks)
    (h : m.1.toList = c :: cs) (hr : read c (cs ++ after) = .ok piece) :
    cs.length ≤ piece.more := by
  obtain ⟨d, ds, hd, hother⟩ := other_of_mark hm
  obtain ⟨rfl, rfl⟩ : d = c ∧ ds = cs := by simpa [hd] using h
  by_cases hc : d = '/' → (ds ++ after).head? ≠ some '/' ∧ (ds ++ after).head? ≠ some '*'
  · have hpre : m.1.toList <+: d :: (ds ++ after) := hd ▸ ⟨after, rfl⟩
    obtain ⟨l, -, -, hle, hl⟩ := exists_mark hm hpre
    rw [read_mark hother hc, hl] at hr
    cases hr
    have hlen : m.1.length = ds.length + 1 := by
      rw [← String.length_toList, hd]
      rfl
    simp only [more]
    omega
  · have hslash : d = '/' := by_contra fun hne => hc fun h => absurd h hne
    have hone := eq_slash hm (by simp [hd, hslash])
    have hnil : ds = [] := (List.cons.inj (hd.symm.trans hone)).2
    simp [hnil]

/-- Every piece with which the text begins is part of the one that is taken. -/
theorem length_le_more (h : Part (c :: cs)) (hr : read c (cs ++ after) = .ok piece) :
    cs.length ≤ piece.more := by
  rcases h with hg | ⟨kind, value, hl⟩
  · exact length_le_more_of_gap hg hr
  · generalize ht : c :: cs = text at hl
    cases hl with
    | word hw hcs =>
      cases ht
      rw [read_word hw] at hr
      cases hr
      exact (run_append hcs).symm ▸ Nat.le_add_right _ _
    | whole hd hcs =>
      cases ht
      rw [read_digit hd] at hr
      cases hr
      exact (numberRun_append hcs).symm ▸ Nat.le_add_right _ _
    | decimal hc hcs hd hds =>
      cases ht
      rw [read_digit hc] at hr
      cases hr
      exact (numberRun_decimal hcs hd hds).symm ▸ Nat.le_add_right _ _
    | string hbody =>
      cases ht
      rw [read_string, List.append_assoc, List.singleton_append, stringEnd?_append hbody] at hr
      cases hr
      simp [literal, more]
    | char hbody =>
      cases ht
      rw [read_char, List.append_assoc, List.singleton_append, charEnd?_append hbody] at hr
      cases hr
      simp [literal, more]
    | mark hm => exact length_le_more_of_mark hm ht.symm hr

theorem not_stuck (hr : read c rest = .ok piece) : ¬ Stuck fault (c :: rest) := by
  intro h
  have ht := hr ▸ taken c rest
  cases h with
  | unrecognised hs hq hnone =>
    cases ht with
    | @gap cs after hg => exact hnone _ ⟨after, rfl⟩ (.inl hg)
    | @token cs after kind value hl => exact hnone _ ⟨after, rfl⟩ (.inr ⟨_, _, hl⟩)
  | comment hnone =>
    rw [read_block] at hr
    rcases hend : commentEnd? _ with _ | n
    · rw [hend] at hr
      cases hr
    · obtain ⟨cs, after, rfl, -, -⟩ := exists_comment hend
      exact hnone ⟨cs, after, by simp⟩
  | string hnone =>
    rw [read_string] at hr
    rcases hend : stringEnd? rest with _ | n
    · rw [hend] at hr
      cases hr
    · obtain ⟨body, after, rfl, hbody, -⟩ := exists_glyphs hend
      exact hnone body hbody ⟨after, by simp⟩
  | char hnone =>
    rw [read_char] at hr
    rcases hend : charEnd? rest with _ | n
    · rw [hend] at hr
      cases hr
    · obtain ⟨body, after, rfl, hbody, -⟩ := exists_glyph hend
      exact hnone body hbody ⟨after, by simp⟩

theorem longest_of_read (hr : read c (cs ++ after) = .ok piece) (hn : piece.more = cs.length) :
    Longest (c :: cs) after := by
  rintro more ⟨tail, rfl⟩ hpart
  rw [← List.append_assoc] at hr
  have hle : (cs ++ more).length ≤ piece.more := length_le_more hpart hr
  rw [hn, List.length_append] at hle
  exact List.length_eq_zero_iff.mp (by omega)

end Taking

end Piece

end Primer
