import Primer.Proofs.Partition

/-!
# Tokens can be written down and read again

Every token has a spelling of its own: marks are fixed, words and numbers are spelled by their
values, and the value of a literal is escaped between its quotes. Spellings with a space between
them are read as the tokens they spell, since no piece goes on across a blank.
-/

namespace Primer

namespace Token

/-- The letter that stands for a character behind a backslash. -/
def escapeLetter? : Char → Option Char
  | '\n' => some 'n'
  | '\t' => some 't'
  | '\r' => some 'r'
  | '\x00' => some '0'
  | '\\' => some '\\'
  | '"' => some '"'
  | '\'' => some '\''
  | _ => none

def escapeChar (c : Char) : List Char :=
  match escapeLetter? c with
  | some letter => ['\\', letter]
  | none => [c]

/-- A text as it is written between quotes. -/
def escape (cs : List Char) : List Char := cs.flatMap escapeChar

def quoted (quote : Char) (value : String) : List Char :=
  quote :: (escape value.toList ++ [quote])

/-- The text by which a token is written. -/
def spelling (t : Token) : List Char :=
  match t.kind with
  | .string => quoted '"' t.value
  | .char => quoted '\'' t.value
  | kind =>
    match TokenKind.marks.find? (·.2 = kind) with
    | some mark => mark.1.toList
    | none => t.value.toList

/-- The spellings of tokens with single spaces between them. -/
def row (tokens : List Token) : List Char := [' '].intercalate (tokens.map spelling)

def spell (tokens : List Token) : String := String.ofList (row tokens)

/-- What a token is, wherever it stands. -/
def content (t : Token) : TokenKind × String := (t.kind, t.value)

section Escape

variable {c d : Char} {cs : List Char}

/-- The two ways in which a character is escaped. -/
theorem escapeLetter?_cases (c : Char) :
    (∃ d, escapeLetter? c = some d ∧ escaped? d = some c ∧ d ≠ '\n') ∨
      escapeLetter? c = none ∧ c ≠ '\\' ∧ c ≠ '\n' ∧ c ≠ '"' ∧ c ≠ '\'' := by
  unfold escapeLetter?
  split
  case h_8 => simp_all
  all_goals exact .inl ⟨_, rfl, rfl, by decide⟩

theorem unescape_cons_of_ne (h : c ≠ '\\') : unescape (c :: cs) = c :: unescape cs := by
  rw [unescape] <;> simp [h]

theorem unescape_escape (cs : List Char) : unescape (escape cs) = cs := by
  induction cs with
  | nil => rfl
  | cons c cs ih =>
    have hcons : escape (c :: cs) = escapeChar c ++ escape cs := rfl
    rw [hcons, escapeChar]
    rcases escapeLetter?_cases c with ⟨d, hd, hc, -⟩ | ⟨hnone, hne, -⟩
    · rw [hd]
      simp [unescape, hc, ih]
    · rw [hnone]
      simp [unescape_cons_of_ne hne, ih]

theorem glyph_escapeChar {quote : Char} (hq : quote = '"' ∨ quote = '\'') (c : Char) :
    Glyph quote (escapeChar c) := by
  unfold escapeChar
  rcases escapeLetter?_cases c with ⟨d, hd, -, hn⟩ | ⟨hnone, hs, hn, hd, hc⟩
  · rw [hd]
    exact .escape hn
  · rw [hnone]
    exact .plain (by rcases hq with rfl | rfl <;> assumption) hs hn

theorem glyphs_escape (cs : List Char) : Glyphs (escape cs) := by
  induction cs with
  | nil => exact .nil
  | cons c cs ih => exact .cons (glyph_escapeChar (.inl rfl) c) ih

end Escape

end Token

section Boundary

variable {c : Char} {cs after : List Char} {kind : TokenKind} {value : String}
  {m : String × TokenKind}

theorem Piece.not_isBlank_mark (hm : m ∈ TokenKind.marks) :
    ∀ x ∈ m.1.toList, Text.isBlank x = false := by
  have hall : ∀ m ∈ TokenKind.marks, m.1.toList.all fun x => !Text.isBlank x := by decide
  simpa using hall m hm

theorem Piece.mark_of_toList {l : String × TokenKind} (hl : l ∈ TokenKind.marks)
    (hm : m ∈ TokenKind.marks) (h : l.1.toList = m.1.toList) : l = m := by
  have hall : ∀ l ∈ TokenKind.marks, ∀ m ∈ TokenKind.marks, l.1.toList = m.1.toList → l = m := by
    decide
  exact hall l hl m hm h

/-- A text without blanks that begins before a blank ends before it. -/
theorem Piece.prefix_of_append {text l : List Char} (h : l <+: text ++ after)
    (hl : ∀ x ∈ l, Text.isBlank x = false) (hafter : ∀ x ∈ after.head?, Text.isBlank x) :
    l <+: text := by
  obtain ⟨tail, htail⟩ := h
  rcases List.append_eq_append_iff.mp htail with ⟨more, htext, -⟩ | ⟨more, hlong, hmore⟩
  · exact ⟨more, htext.symm⟩
  · cases more with
    | nil => exact ⟨[], by simpa using hlong⟩
    | cons x more =>
      have hx := hl x (by simp [hlong])
      simp [hafter x (by simp [hmore])] at hx

theorem Piece.read_mark_before {m : String × TokenKind} (hm : m ∈ TokenKind.marks)
    (hc : m.1.toList = c :: cs) (hafter : ∀ x ∈ after.head?, Text.isBlank x) :
    Piece.read c (cs ++ after) = .ok (.token cs.length m.2 m.1) := by
  obtain ⟨d, ds, hd, hother⟩ := Piece.other_of_mark hm
  obtain ⟨rfl, rfl⟩ : c = d ∧ cs = ds := by simpa [hd, eq_comm] using hc
  have hcomment : c = '/' → (cs ++ after).head? ≠ some '/' ∧ (cs ++ after).head? ≠ some '*' := by
    rintro rfl
    obtain rfl : cs = [] := (List.cons.inj (hc.symm.trans (Piece.eq_slash hm (by simp [hc])))).2
    exact ⟨fun h => absurd (hafter _ h) (by decide), fun h => absurd (hafter _ h) (by decide)⟩
  have hpre : m.1.toList <+: c :: (cs ++ after) := hc ▸ ⟨after, rfl⟩
  obtain ⟨l, hl, hlpre, hle, hfind⟩ := Piece.exists_mark hm hpre
  have hlm : l.1.toList <+: m.1.toList := by
    refine Piece.prefix_of_append ?_ (Piece.not_isBlank_mark hl) hafter
    rwa [hc]
  have hlist := hlm.eq_of_length_le (by rwa [String.length_toList, String.length_toList])
  obtain rfl := Piece.mark_of_toList hl hm hlist
  have hlen : l.1.length - 1 = cs.length := by
    rw [← String.length_toList, hc]
    rfl
  rw [Piece.read_mark hother hcomment, hfind, Option.elim_some, hlen]

theorem Lexeme.not_isBlank (h : Lexeme (c :: cs) kind value) : Text.isBlank c = false := by
  generalize ht : c :: cs = text at h
  cases h with
  | word hw => cases ht; exact Piece.isBlank_of_isWordPart (Piece.isWordPart_of_isWordStart hw)
  | whole hd => cases ht; exact Piece.isBlank_of_isWordPart (Piece.isWordPart_of_isDigit hd)
  | decimal hd => cases ht; exact Piece.isBlank_of_isWordPart (Piece.isWordPart_of_isDigit hd)
  | string => cases ht; rfl
  | char => cases ht; rfl
  | mark hm => exact Piece.not_isBlank_mark hm c (ht ▸ List.mem_cons_self)

theorem Piece.read_lexeme (h : Lexeme (c :: cs) kind value)
    (hafter : ∀ x ∈ after.head?, Text.isBlank x) :
    Piece.read c (cs ++ after) = .ok (.token cs.length kind value) := by
  have hword : ∀ x ∈ after.head?, Piece.isWordPart x = false := fun x hx =>
    Bool.eq_false_iff.mpr fun hw => by simpa [Piece.isBlank_of_isWordPart hw] using hafter x hx
  have hdigit : ∀ x ∈ after.head?, x.isDigit = false := fun x hx =>
    Bool.eq_false_iff.mpr fun hd => by simpa [Piece.isWordPart_of_isDigit hd] using hword x hx
  generalize ht : c :: cs = text at h
  cases h with
  | word hw hcs =>
    cases ht
    rw [Piece.read_word hw, (Piece.take_run hcs hword).2, (Piece.take_run hcs hword).1]
  | whole hd hcs =>
    cases ht
    have hzero : Piece.numberRun after = 0 := by
      refine Piece.numberRun_eq_zero hdigit fun d _ hpoint => ?_
      exact absurd (hafter '.' hpoint) (by decide)
    rw [Piece.read_digit hd, Piece.numberRun_append hcs, hzero, Nat.add_zero, List.take_left]
  | decimal hc hcs hd hds =>
    cases ht
    rw [Piece.read_digit hc, Piece.numberRun_decimal hcs hd hds, Piece.run_eq_zero hdigit,
      Nat.add_zero, List.take_left]
  | string hbody =>
    cases ht
    rw [Piece.read_string, List.append_assoc, List.singleton_append,
      Piece.stringEnd?_append hbody, Option.elim_some, Piece.literal_eq]
  | char hbody =>
    cases ht
    rw [Piece.read_char, List.append_assoc, List.singleton_append,
      Piece.charEnd?_append hbody, Option.elim_some, Piece.literal_eq]
  | mark hm => exact Piece.read_mark_before hm ht.symm hafter

end Boundary

namespace Token

variable {source before after : List Char} {tokens : List Token} {t : Token}

theorem spelling_word (word : List Char) (value : String) (span : Span) :
    spelling ⟨Piece.wordKind word, value, span⟩ = value.toList := by
  unfold Piece.wordKind TokenKind.ofWord?
  split <;> rfl

theorem spelling_number (value : String) (span : Span) :
    spelling ⟨.number, value, span⟩ = value.toList := rfl

theorem spelling_mark {m : String × TokenKind} (hm : m ∈ TokenKind.marks) (value : String)
    (span : Span) : spelling ⟨m.2, value, span⟩ = m.1.toList := by
  have hall : ∀ m ∈ TokenKind.marks, m.2 ≠ .string ∧ m.2 ≠ .char ∧
      TokenKind.marks.find? (·.2 = m.2) = some m := by decide
  obtain ⟨hs, hc, hfind⟩ := hall m hm
  unfold spelling
  split
  · exact absurd ‹_› hs
  · exact absurd ‹_› hc
  · simp [hfind]

/-- The spelling of a token is one of those it can have been read from. -/
theorem lexeme_spelling {text : List Char} (h : Lexeme text t.kind t.value)
    (hchar : t.kind = .char → t.value.length = 1) : Lexeme (spelling t) t.kind t.value := by
  obtain ⟨kind, value, span⟩ := t
  dsimp only at h hchar ⊢
  cases h with
  | word hw hcs =>
    rw [spelling_word, String.toList_ofList]
    exact .word hw hcs
  | whole hd hcs =>
    rw [spelling_number, String.toList_ofList]
    exact .whole hd hcs
  | decimal hc hcs hd hds =>
    rw [spelling_number, String.toList_ofList]
    exact .decimal hc hcs hd hds
  | @string body hbody =>
    have h := Lexeme.string (glyphs_escape (unescape body))
    rw [unescape_escape] at h
    simpa [spelling, quoted] using h
  | @char body hbody =>
    obtain ⟨c, hc⟩ := List.length_eq_one_iff.mp (String.length_ofList ▸ hchar rfl)
    have h := Lexeme.char (glyph_escapeChar (.inr rfl) c)
    have hesc : escapeChar c = escape (unescape body) := by simp [hc, escape]
    rw [hesc, unescape_escape] at h
    simpa [spelling, quoted] using h
  | mark hm =>
    rw [spelling_mark hm]
    exact .mark hm

/-- The tokens of a cut source come from spellings. -/
theorem exists_lexeme (h : Cut source before after tokens) :
    ∀ t ∈ tokens, ∃ text, Lexeme text t.kind t.value := by
  induction h with
  | start => simp
  | gap _ _ _ _ ih => exact ih
  | token _ _ hl _ ih =>
    intro t ht
    rcases List.mem_append.mp ht with ht | ht
    · exact ih t ht
    · obtain rfl := List.mem_singleton.mp ht
      exact ⟨_, hl⟩

/-- Reading from any place gives tokens that are these ones and the end of the text. -/
def Spells (cs : List Char) (tokens : List Token) : Prop :=
  ∀ p, ∃ again q, readFrom p cs = .ok (again ++ [eof q]) ∧
    again.map content = tokens.map content

theorem spells_nil : Spells [] [] := fun p => ⟨[], p, readFrom_nil p, rfl⟩

theorem spells_cons (h : Lexeme (spelling t) t.kind t.value)
    (hafter : ∀ x ∈ after.head?, Text.isBlank x) (hrest : Spells after tokens) :
    Spells (spelling t ++ after) (t :: tokens) := by
  intro p
  generalize hs : spelling t = text at h
  cases text with
  | nil => exact absurd rfl (Piece.part_ne_nil (.inr ⟨_, _, h⟩))
  | cons c cs =>
    obtain ⟨again, q, hread, hcontent⟩ := hrest (p.after (c :: cs))
    refine ⟨⟨t.kind, t.value, ⟨p, p.after (c :: cs)⟩⟩ :: again, q, ?_, ?_⟩
    · rw [List.cons_append, readFrom_of_ok (Piece.read_lexeme h hafter) rfl, hread]
      rfl
    · rw [List.map_cons, List.map_cons, hcontent]
      rfl

theorem spells_space (h : ∀ x ∈ after.head?, Text.isBlank x = false)
    (hrest : Spells after tokens) : Spells (' ' :: after) tokens := by
  intro p
  obtain ⟨again, q, hread, hcontent⟩ := hrest (p.after [' '])
  have hgap : Piece.read ' ' ([] ++ after) = .ok (.gap 0) := by
    rw [Piece.read_blank rfl, List.nil_append, Piece.run_eq_zero h]
  refine ⟨again, q, ?_, hcontent⟩
  rw [← List.nil_append after, readFrom_of_ok hgap rfl, hread]
  rfl

theorem row_cons_cons (t u : Token) (tokens : List Token) :
    row (t :: u :: tokens) = spelling t ++ ' ' :: row (u :: tokens) := by
  simp [row, List.intercalate]

theorem row_singleton (t : Token) : row [t] = spelling t ++ [] := by
  simp [row, List.intercalate]

theorem head_spelling (h : Lexeme (spelling t) t.kind t.value) (rest : List Char) :
    ∀ x ∈ (spelling t ++ rest).head?, Text.isBlank x = false := by
  intro x hx
  generalize spelling t = text at h hx
  cases text with
  | nil => exact absurd rfl (Piece.part_ne_nil (.inr ⟨_, _, h⟩))
  | cons c cs =>
    obtain rfl : c = x := by simpa using hx
    exact h.not_isBlank

theorem head_row (h : Lexeme (spelling t) t.kind t.value) :
    ∀ x ∈ (row (t :: tokens)).head?, Text.isBlank x = false := by
  cases tokens with
  | nil => exact row_singleton t ▸ head_spelling h []
  | cons u tokens => exact row_cons_cons t u tokens ▸ head_spelling h _

theorem spells_row : ∀ {tokens : List Token},
    (∀ t ∈ tokens, Lexeme (spelling t) t.kind t.value) → Spells (row tokens) tokens
  | [], _ => spells_nil
  | [t], h => row_singleton t ▸ spells_cons (h t List.mem_cons_self) (by simp) spells_nil
  | t :: u :: tokens, h => by
    have hrest : ∀ t ∈ u :: tokens, Lexeme (spelling t) t.kind t.value :=
      fun v hv => h v (List.mem_cons_of_mem t hv)
    have hspace := spells_space (head_row (hrest u List.mem_cons_self)) (spells_row hrest)
    rw [row_cons_cons]
    exact spells_cons (h t List.mem_cons_self) (by simp; decide) hspace

theorem read_quoted (value : String) :
    let text := quoted '"' value
    read (String.ofList text) = .ok
      [⟨.string, value, ⟨.start, .behind text⟩⟩, eof (.behind text)] := by
  intro text
  have hl : Lexeme ('"' :: (escape value.toList ++ ['"'])) .string value := by
    simpa [unescape_escape] using Lexeme.string (glyphs_escape value.toList)
  have hr : Piece.read '"' (escape value.toList ++ ['"'] ++ []) =
      .ok (.token (escape value.toList ++ ['"']).length .string value) :=
    Piece.read_lexeme hl (by simp)
  have htext : text = '"' :: (escape value.toList ++ ['"'] ++ []) := by
    simp [text, quoted]
  unfold read
  rw [String.toList_ofList, htext, readFrom_of_ok hr rfl, readFrom_nil, Position.after_start,
    List.append_nil]
  rfl

/-- The tokens of a source, spelled with spaces between them, are read again as they are. Escapes
are undone, and an escaped text between quotes is one token. -/
theorem read_spell {source : String} {tokens : List Token} (h : read source = .ok tokens)
    (hchar : ∀ t ∈ tokens, t.kind = .char → t.value.length = 1) :
    (∃ again, read (spell tokens.dropLast) = .ok again ∧
      again.map content = tokens.map content) ∧
    ∀ value : String, unescape (escape value.toList) = value.toList ∧
      read (String.ofList (quoted '"' value)) = .ok
        [⟨.string, value, ⟨.start, .behind (quoted '"' value)⟩⟩,
          eof (.behind (quoted '"' value))] := by
  refine ⟨?_, fun value => ⟨unescape_escape _, read_quoted value⟩⟩
  have hstart : Cut source.toList [] source.toList [] := .start
  rcases goes_of_cut hstart with ⟨more, hread, hcut⟩ | ⟨d, _, _, _, hread, _⟩
  · obtain rfl : more ++ [eof (.behind source.toList)] = tokens :=
      Except.ok.inj (hread.symm.trans h)
    have hlex : ∀ t ∈ more, Lexeme (spelling t) t.kind t.value := by
      intro t ht
      obtain ⟨text, htext⟩ := exists_lexeme hcut t ht
      exact lexeme_spelling htext (hchar t (List.mem_append_left _ ht))
    obtain ⟨again, q, hagain, hcontent⟩ := spells_row hlex .start
    refine ⟨again ++ [eof q], ?_, ?_⟩
    · rw [List.dropLast_concat, spell, read, String.toList_ofList]
      exact hagain
    · rw [List.map_append, List.map_append, hcontent]
      rfl
  · cases hread.symm.trans h

/-- An escaped quote, a decimal, a reserved word in capitals and a comment. -/
theorem read_spell_println :
    ∃ tokens, read "PRINTLN('\\'', 2.50)/*;*/; x\n=\"\\\"\\q\"" = .ok tokens ∧
      (∀ t ∈ tokens, t.kind = .char → t.value.length = 1) ∧
      ∃ again, read (spell tokens.dropLast) = .ok again ∧
        again.map content = tokens.map content := by
  have h : read "PRINTLN('\\'', 2.50)/*;*/; x\n=\"\\\"\\q\"" = .ok [
      ⟨.printWord, "PRINTLN", ⟨⟨1, 1⟩, ⟨1, 8⟩⟩⟩, ⟨.openParen, "(", ⟨⟨1, 8⟩, ⟨1, 9⟩⟩⟩,
      ⟨.char, "'", ⟨⟨1, 9⟩, ⟨1, 13⟩⟩⟩, ⟨.comma, ",", ⟨⟨1, 13⟩, ⟨1, 14⟩⟩⟩,
      ⟨.number, "2.50", ⟨⟨1, 15⟩, ⟨1, 19⟩⟩⟩, ⟨.closeParen, ")", ⟨⟨1, 19⟩, ⟨1, 20⟩⟩⟩,
      ⟨.semicolon, ";", ⟨⟨1, 25⟩, ⟨1, 26⟩⟩⟩, ⟨.identifier, "x", ⟨⟨1, 27⟩, ⟨1, 28⟩⟩⟩,
      ⟨.assignment, "=", ⟨⟨2, 1⟩, ⟨2, 2⟩⟩⟩, ⟨.string, "\"\\q", ⟨⟨2, 2⟩, ⟨2, 8⟩⟩⟩,
      eof ⟨2, 8⟩] := by decide +kernel
  exact ⟨_, h, by decide, (read_spell h (by decide)).1⟩

end Token

end Primer
