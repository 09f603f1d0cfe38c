import Mathlib
import Primer.Proofs.ReadEnds
import Primer.Proofs.Recased
import Primer.Proofs.Spelling

/-!
# The names of types

A type has one spelling in small letters without white space, or two where it holds a `bool`, and a
name is read as the type whose spelling it has (`Ty.ofName?_iff`). No letter outside the plain ones
becomes one of the characters of these spellings (`Text.exists_foreign`), so it makes no difference
which letters the reader takes for capitals. The tokens of a type, one behind the other, are a name
of it.
-/

namespace Primer

/-! ## Parts of texts -/

namespace Text

variable {cs : List Char}

theorem after?_eq_some {head rest : List Char} (h : after? head cs = some rest) :
    cs = head ++ rest := by
  unfold after? at h
  split_ifs at h with hpre
  cases h
  exact (List.prefix_iff_eq_append.1 (List.isPrefixOf_iff_prefix.1 hpre)).symm

theorem before?_eq_some {tail rest : List Char} (h : before? tail cs = some rest) :
    cs = rest ++ tail := by
  unfold before? at h
  split_ifs at h with hsuf
  cases h
  exact (List.suffix_iff_eq_append.1 (List.isSuffixOf_iff_suffix.1 hsuf)).symm

theorem after?_append (head rest : List Char) : after? head (head ++ rest) = some rest := by
  unfold after?
  rw [if_pos (List.isPrefixOf_iff_prefix.2 ⟨rest, rfl⟩), List.drop_left]

theorem before?_append (rest tail : List Char) : before? tail (rest ++ tail) = some rest := by
  unfold before?
  rw [if_pos (List.isSuffixOf_iff_suffix.2 ⟨rest, rfl⟩), List.length_append, Nat.add_sub_cancel,
    List.take_left]

end Text

/-! ## Spellings -/

namespace Scalar

/-- The spellings of a scalar type in small letters. -/
def words : Scalar → List String
  | bool => ["bool", "boolean"]
  | s => [s.text]

theorem ofWord?_iff {w : List Char} {s : Scalar} :
    ofWord? w = some s ↔ String.ofList w ∈ s.words := by
  unfold ofWord?
  split <;> cases s <;> simp_all [words, text]

end Scalar

namespace Ty

/-- A type as it is written, with the long name of `bool`. -/
def longText : Ty → String
  | bool => "boolean"
  | vector .bool => "boolean[]"
  | matrix .bool => "boolean[][]"
  | list .bool => "List<boolean>"
  | t => t.text

/-- The spellings of a type in small letters without white space. -/
def spellings : Ty → List (List Char)
  | scalar b => b.words.map String.toList
  | void => ["void".toList]
  | error => []
  | vector b => b.words.map fun w => (w ++ "[]").toList
  | matrix b => b.words.map fun w => (w ++ "[][]").toList
  | list b => b.words.map fun w => ("list<" ++ w ++ ">").toList

/-- A name in small letters without white space. -/
def word (name : String) : List Char := (name.toList.filter (!Text.isBlank ·)).map Char.toLower

/-- The type of a spelling. -/
def ofWord? (word : List Char) : Option Ty :=
  match (Text.after? "list<".toList word).bind (Text.before? ">".toList) with
  | some inner => (Scalar.ofWord? inner).map list
  | none =>
    match Text.before? "[][]".toList word with
    | some inner => (Scalar.ofWord? inner).map matrix
    | none =>
      match Text.before? "[]".toList word with
      | some inner => (Scalar.ofWord? inner).map vector
      | none => if word = "void".toList then some void else (Scalar.ofWord? word).map scalar

theorem ofName?_eq_ofWord? (name : String) : ofName? name = ofWord? (word name) := rfl

variable {t : Ty} {w : List Char} {name : String}

theorem mem_spellings_of_ofWord? (h : ofWord? w = some t) : w ∈ t.spellings := by
  have hmem : ∀ {inner b}, Scalar.ofWord? inner = some b → String.ofList inner ∈ b.words :=
    Scalar.ofWord?_iff.1
  unfold ofWord? at h
  split at h
  · rename_i inner hinner
    obtain ⟨b, hb, rfl⟩ := Option.map_eq_some_iff.1 h
    obtain ⟨rest, hrest, hend⟩ := Option.bind_eq_some_iff.1 hinner
    obtain rfl := Text.after?_eq_some hrest
    obtain rfl := Text.before?_eq_some hend
    exact List.mem_map.2 ⟨_, hmem hb, by simp⟩
  split at h
  · rename_i inner hinner
    obtain ⟨b, hb, rfl⟩ := Option.map_eq_some_iff.1 h
    obtain rfl := Text.before?_eq_some hinner
    exact List.mem_map.2 ⟨_, hmem hb, by simp⟩
  split at h
  · rename_i inner hinner
    obtain ⟨b, hb, rfl⟩ := Option.map_eq_some_iff.1 h
    obtain rfl := Text.before?_eq_some hinner
    exact List.mem_map.2 ⟨_, hmem hb, by simp⟩
  split_ifs at h with hvoid
  · cases h
    exact List.mem_singleton.2 hvoid
  · obtain ⟨b, hb, rfl⟩ := Option.map_eq_some_iff.1 h
    exact List.mem_map.2 ⟨_, hmem hb, by simp⟩

theorem ofWord?_spelling : ∀ w ∈ t.spellings, ofWord? w = some t := by
  rcases t with b | _ | _ | b | b | b
  case void => decide +kernel
  case error => decide
  all_goals cases b <;> decide +kernel

theorem ofWord?_iff : ofWord? w = some t ↔ w ∈ t.spellings :=
  ⟨mem_spellings_of_ofWord?, ofWord?_spelling w⟩

theorem ofName?_iff_spelling : ofName? name = some t ↔ word name ∈ t.spellings := ofWord?_iff

/-- Every type but `error` has the spellings of its texts. -/
theorem mem_spellings_iff : w ∈ t.spellings ↔
    t ≠ error ∧ (w = t.text.toList.map Char.toLower ∨ w = t.longText.toList.map Char.toLower) := by
  have hlists : t ≠ error →
      t.spellings ⊆ [t.text.toList.map Char.toLower, t.longText.toList.map Char.toLower] ∧
        [t.text.toList.map Char.toLower, t.longText.toList.map Char.toLower] ⊆ t.spellings := by
    intro h
    rcases t with b | _ | _ | b | b | b
    case void => decide +kernel
    case error => exact absurd rfl h
    all_goals cases b <;> decide +kernel
  by_cases h : t = error
  · subst h
    simp [spellings]
  · have hw : w ∈ t.spellings ↔
        w ∈ [t.text.toList.map Char.toLower, t.longText.toList.map Char.toLower] :=
      ⟨fun hw => (hlists h).1 hw, fun hw => (hlists h).2 hw⟩
    rw [hw]
    simp [h]

theorem not_foreign_text (t : Ty) : (∀ x ∈ t.text.toList.map Char.toLower, ¬ Text.Foreign x) ∧
    ∀ x ∈ t.longText.toList.map Char.toLower, ¬ Text.Foreign x := by
  rcases t with b | _ | _ | b | b | b
  case void => exact ⟨Text.not_foreign rfl, Text.not_foreign rfl⟩
  case error => exact ⟨Text.not_foreign rfl, Text.not_foreign rfl⟩
  all_goals cases b <;> exact ⟨Text.not_foreign rfl, Text.not_foreign rfl⟩

/-- A name is read as a type if, apart from case and white space, it is how the type is written,
with either name of `bool`. -/
theorem ofName?_iff (final : List Char → List Char → Bool) : ofName? name = some t ↔ t ≠ error ∧
    (Text.lower final (name.toList.filter (!Text.isBlank ·)) = Text.lower final t.text.toList ∨
      Text.lower final (name.toList.filter (!Text.isBlank ·)) =
        Text.lower final t.longText.toList) := by
  obtain ⟨hplain, hlong⟩ := t.not_foreign_text
  rw [ofName?_iff_spelling, mem_spellings_iff, (Text.lower_eq_iff final hplain).2 rfl,
    (Text.lower_eq_iff final hlong).2 rfl, Text.lower_eq_iff final hplain,
    Text.lower_eq_iff final hlong]
  rfl

/-! ## Names inside names -/

theorem word_append (a b : String) : word (a ++ b) = word a ++ word b := by simp [word]

/-- A part of a spelling is spelled as it is. -/
theorem word_ofList {inner : List Char} (h : inner <:+: word name) :
    word (String.ofList inner) = inner := by
  have hplain : ∀ c ∈ inner, Text.isBlank c = false ∧ c.toLower = c := by
    intro c hc
    obtain ⟨d, hd, rfl⟩ := List.mem_map.1 (h.subset hc)
    rw [List.mem_filter, Bool.not_eq_true'] at hd
    exact ⟨by rw [Text.isBlank_toLower, hd.2], Char.toLower_toLower_eq_toLower d⟩
  have hfilter : inner.filter (!Text.isBlank ·) = inner :=
    List.filter_eq_self.2 fun c hc => by rw [(hplain c hc).1, Bool.not_false]
  rw [word, String.toList_ofList, hfilter]
  exact (List.map_congr_left fun c hc => (hplain c hc).2).trans (List.map_id _)

/-- What a word names as a scalar is the scalar it names as a type. -/
theorem scalar?_ofWord? (inner : List Char) :
    (ofWord? inner).bind scalar? = Scalar.ofWord? inner := by
  refine Option.ext fun b => ?_
  rw [Scalar.ofWord?_iff, Option.bind_eq_some_iff]
  constructor
  · rintro ⟨t, ht, hb⟩
    cases t <;> cases hb
    obtain ⟨w, hw, rfl⟩ := List.mem_map.1 (ofWord?_iff.1 ht)
    rwa [String.ofList_toList]
  · exact fun hb => ⟨scalar b, ofWord?_iff.2 (List.mem_map.2 ⟨_, hb, String.toList_ofList⟩), rfl⟩

/-- What stands inside a name is read as a name, and has to be one of a scalar type. -/
theorem ofName?_recursive (name : String) : ofName? name =
    match (Text.after? "list<".toList (word name)).bind (Text.before? ">".toList) with
    | some inner => ((ofName? (String.ofList inner)).bind scalar?).map list
    | none =>
      match Text.before? "[][]".toList (word name) with
      | some inner => ((ofName? (String.ofList inner)).bind scalar?).map matrix
      | none =>
        match Text.before? "[]".toList (word name) with
        | some inner => ((ofName? (String.ofList inner)).bind scalar?).map vector
        | none =>
          if word name = "void".toList then some void
          else (Scalar.ofWord? (word name)).map scalar := by
  have hinner : ∀ {inner}, inner <:+: word name →
      (ofName? (String.ofList inner)).bind scalar? = Scalar.ofWord? inner := fun h => by
    rw [ofName?_eq_ofWord?, word_ofList h, scalar?_ofWord?]
  rw [ofName?_eq_ofWord?, ofWord?]
  split
  · rename_i inner h
    obtain ⟨rest, hrest, hend⟩ := Option.bind_eq_some_iff.1 h
    obtain rfl := Text.before?_eq_some hend
    rw [hinner ⟨_, _, by rw [Text.after?_eq_some hrest, List.append_assoc]⟩]
  split
  · rename_i inner h
    rw [hinner (Text.before?_eq_some h ▸ (List.prefix_append ..).isInfix)]
  split
  · rename_i inner h
    rw [hinner (Text.before?_eq_some h ▸ (List.prefix_append ..).isInfix)]
  · rfl

/-- Only vectors and matrices end in a bracket. -/
theorem vector_or_matrix (hw : w ∈ t.spellings) (hlast : w.getLast? = some ']') :
    ∃ b, t = vector b ∨ t = matrix b := by
  have hother : t.base? = none ∨ (∃ b, t = list b) → ∀ w ∈ t.spellings, w.getLast? ≠ some ']' := by
    rcases t with b | _ | _ | b | b | b
    case vector | matrix => simp [base?]
    case void | error => exact fun _ => by decide +kernel
    all_goals cases b <;> exact fun _ => by decide +kernel
  cases t with
  | vector b => exact ⟨b, .inl rfl⟩
  | matrix b => exact ⟨b, .inr rfl⟩
  | list b => exact absurd hlast (hother (.inr ⟨b, rfl⟩) w hw)
  | scalar | void | error => exact absurd hlast (hother (.inl rfl) w hw)

/-- The name of a container is no part of the name of another, unless a pair of brackets behind a
vector makes a matrix. -/
theorem ofName?_nested (h : ofName? name = some t) (ht : t.isContainer = true) :
    ofName? ("List<" ++ name ++ ">") = none ∧
      ∀ u, ofName? (name ++ "[]") = some u → ∃ b, t = vector b ∧ u = matrix b := by
  have hname : ∀ {b}, word name ∉ (scalar b).spellings := by
    intro b hb
    cases h.symm.trans (ofName?_iff_spelling.2 hb)
    cases ht
  constructor
  · refine Option.eq_none_iff_forall_ne_some.2 fun u hu => ?_
    have hword : word ("List<" ++ name ++ ">") = "list<".toList ++ (word name ++ ">".toList) := by
      rw [word_append, word_append, List.append_assoc]
      rfl
    rw [ofName?_recursive, hword, Text.after?_append, Option.bind_some, Text.before?_append] at hu
    dsimp only at hu
    obtain ⟨b, hb, -⟩ := Option.map_eq_some_iff.1 hu
    rw [ofName?_eq_ofWord?, word_ofList List.infix_rfl, scalar?_ofWord?, Scalar.ofWord?_iff] at hb
    exact hname (List.mem_map.2 ⟨_, hb, String.toList_ofList⟩)
  · intro u hu
    have hword : word (name ++ "[]") = word name ++ "[]".toList := by
      rw [word_append]
      rfl
    have hlast : (word (name ++ "[]")).getLast? = some ']' := by rw [hword]; simp
    have hmem := ofName?_iff_spelling.1 hu
    obtain ⟨b, rfl | rfl⟩ := vector_or_matrix hmem hlast
    · obtain ⟨w, hw, he⟩ := List.mem_map.1 hmem
      rw [hword, String.toList_append] at he
      exact absurd (List.mem_map.2 ⟨w, hw, List.append_cancel_right he⟩) hname
    · obtain ⟨w, hw, he⟩ := List.mem_map.1 hmem
      have he : (w ++ "[]").toList ++ "[]".toList = word name ++ "[]".toList := by
        rw [← hword, ← he, ← String.toList_append, String.append_assoc]
        rfl
      have hb : word name ∈ (vector b).spellings :=
        List.mem_map.2 ⟨w, hw, List.append_cancel_right he⟩
      cases h.symm.trans (ofName?_iff_spelling.2 hb)
      exact ⟨b, rfl, rfl⟩

end Ty

/-! ## Names and tokens -/

/-- A source whose tokens have white space between them and nothing else: no comment begins where
the text before has been cut into pieces. -/
def CommentFree (source : String) : Prop := ∀ before after tokens,
  Cut source.toList before after tokens → ¬ ['/', '/'] <+: after ∧ ¬ ['/', '*'] <+: after

/-- A source without a slash has no comments. -/
theorem commentFree_of_not_mem {source : String} (h : '/' ∉ source.toList) :
    CommentFree source := by
  intro before after tokens hcut
  have hafter : '/' ∉ after := fun hm => h (hcut.append_eq ▸ List.mem_append_right _ hm)
  exact ⟨fun hp => hafter (hp.subset List.mem_cons_self),
    fun hp => hafter (hp.subset List.mem_cons_self)⟩

/-- A word, a number or a mark has no white space in it and is its own value. -/
theorem Lexeme.plain {text : List Char} {kind : TokenKind} {value : String}
    (h : Lexeme text kind value) (hs : kind ≠ .string) (hc : kind ≠ .char) :
    text = value.toList ∧ ∀ c ∈ text, Text.isBlank c = false := by
  cases h with
  | word hw hcs =>
    refine ⟨String.toList_ofList.symm, List.forall_mem_cons.2 ⟨?_, fun c hc => ?_⟩⟩
    · exact Piece.isBlank_of_isWordPart (Piece.isWordPart_of_isWordStart hw)
    · exact Piece.isBlank_of_isWordPart (hcs c hc)
  | whole hd hcs =>
    refine ⟨String.toList_ofList.symm, List.forall_mem_cons.2 ⟨?_, fun c hc => ?_⟩⟩
    · exact Piece.isBlank_of_isWordPart (Piece.isWordPart_of_isDigit hd)
    · exact Piece.isBlank_of_isWordPart (Piece.isWordPart_of_isDigit (hcs c hc))
  | @decimal c d cs ds h hcs hd hds =>
    have hdigit : ∀ {c : Char}, c.isDigit → Text.isBlank c = false := fun h =>
      Piece.isBlank_of_isWordPart (Piece.isWordPart_of_isDigit h)
    refine ⟨String.toList_ofList.symm, List.forall_mem_cons.2 ⟨hdigit h, fun x hx => ?_⟩⟩
    rcases List.mem_append.1 hx with hx | hx
    · exact hdigit (hcs x hx)
    · rcases List.mem_cons.1 hx with rfl | hx
      · rfl
      · have hdigits : ∀ x ∈ d :: ds, x.isDigit := List.forall_mem_cons.2 ⟨hd, hds⟩
        exact hdigit (hdigits x hx)
  | string => exact absurd rfl hs
  | char => exact absurd rfl hc
  | mark hm => exact ⟨rfl, Piece.not_isBlank_mark hm⟩

/-- The values of tokens, one behind the other. -/
def Token.joined (tokens : List Token) : List Char := tokens.flatMap fun t => t.value.toList

/-- Without literals and comments, what has been read is the values of the tokens and white
space. -/
theorem Cut.joined_eq {source : String} {before after : List Char} {tokens : List Token}
    (h : Cut source.toList before after tokens) (hfree : CommentFree source)
    (hplain : ∀ t ∈ tokens, t.kind ≠ .string ∧ t.kind ≠ .char) :
    before.filter (!Text.isBlank ·) = Token.joined tokens := by
  induction h with
  | start => rfl
  | @gap before text after tokens hcut hstuck hgap hlong ih =>
    rw [List.filter_append, ih hplain]
    cases hgap with
    | @blank c cs hc hcs =>
      have hall : ∀ x ∈ c :: cs, Text.isBlank x = true := List.forall_mem_cons.2 ⟨hc, hcs⟩
      rw [List.filter_eq_nil_iff.2 fun x hx => by simp [hall x hx], List.append_nil]
    | line => exact absurd ⟨_, rfl⟩ (hfree _ _ _ hcut).1
    | block => exact absurd ⟨_, rfl⟩ (hfree _ _ _ hcut).2
  | @token before text after tokens kind value hcut hstuck hlex hlong ih =>
    obtain ⟨hs, hc⟩ := hplain _ (List.mem_append_right _ List.mem_cons_self)
    obtain ⟨rfl, hblank⟩ := hlex.plain hs hc
    rw [List.filter_append, ih fun t ht => hplain t (List.mem_append_left _ ht),
      List.filter_eq_self.2 fun c hc => by simp [hblank c hc]]
    simp [Token.joined]

theorem Token.joined_cons (t : Token) (ts : List Token) :
    joined (t :: ts) = t.value.toList ++ joined ts :=
  rfl

theorem Token.joined_append (ts us : List Token) : joined (ts ++ us) = joined ts ++ joined us :=
  List.flatMap_append

/-- A token that is no literal between quotes is spelled by its value. -/
theorem Lexeme.spelling_eq {text : List Char} {kind : TokenKind} {value : String}
    (h : Lexeme text kind value) (hs : kind ≠ .string) (hc : kind ≠ .char) (span : Span) :
    Token.spelling ⟨kind, value, span⟩ = value.toList := by
  cases h with
  | word => exact Token.spelling_word ..
  | whole => exact Token.spelling_number ..
  | decimal => exact Token.spelling_number ..
  | string => exact absurd rfl hs
  | char => exact absurd rfl hc
  | mark hm => exact Token.spelling_mark hm ..

theorem Lexeme.mark_value {m : String × TokenKind} {text : List Char} {value : String}
    (hm : m ∈ TokenKind.marks) (h : Lexeme text m.2 value) : value.toList = m.1.toList := by
  have hall : ∀ m ∈ TokenKind.marks, m.2 ≠ .string ∧ m.2 ≠ .char := by decide
  obtain ⟨hs, hc⟩ := hall m hm
  rw [← h.spelling_eq hs hc default, Token.spelling_mark hm]

theorem Lexeme.list_value {text : List Char} {value : String} (h : Lexeme text .listWord value) :
    value.toList.map Char.toLower = "list".toList := by
  generalize hk : TokenKind.listWord = kind at h
  cases h with
  | @word c cs =>
    have hlist : ∀ word, .listWord = (TokenKind.ofWord? word).getD .identifier → word = "list" := by
      intro word hword
      unfold TokenKind.ofWord? at hword
      split at hword <;> first | rfl | cases hword
    have hfold := congrArg String.toList (hlist _ hk)
    rw [Text.fold, String.toList_ofList, String.toList_ofList] at hfold
    rw [String.toList_ofList]
    exact (Text.lower_eq_iff Text.endsWord (Text.not_foreign rfl)).1 hfold
  | mark hm =>
    have hall : ∀ m ∈ TokenKind.marks, .listWord ≠ m.2 := by decide
    exact absurd hk (hall _ hm)
  | _ => cases hk

namespace Ty.Spells

variable {ts : List Token} {ty : Ty}

theorem kind_ne (h : Ty.Spells ts ty) :
    ∀ t ∈ ts, t.kind ≠ .string ∧ t.kind ≠ .char ∧ t.kind ≠ .eof := by
  induction h with
  | word ht => simp [ht]
  | list ht ha _ hz ih => simpa [ht, ha, hz, or_imp, forall_and] using ih
  | vector _ ha hz ih => simpa [ha, hz, or_imp, forall_and] using ih
  | matrix _ ha hz ih => simpa [ha, hz, or_imp, forall_and] using ih

/-- The tokens of a type, one behind the other, are a spelling of it. -/
theorem joined_mem (h : Ty.Spells ts ty) (hlex : ∀ t ∈ ts, ∃ text, Lexeme text t.kind t.value) :
    (Token.joined ts).map Char.toLower ∈ ty.spellings := by
  have hmark : ∀ {t : Token} {m : String × TokenKind}, m ∈ TokenKind.marks →
      (∃ text, Lexeme text t.kind t.value) → t.kind = m.2 → t.value.toList = m.1.toList := by
    rintro t m hm ⟨text, h⟩ hk
    exact Lexeme.mark_value hm (hk ▸ h)
  have hbrackets : ∀ {ts : List Token} {a z : Token},
      (∀ t ∈ ts ++ [a, z], ∃ text, Lexeme text t.kind t.value) →
      a.kind = .openBracket → z.kind = .closeBracket →
      (Token.joined (ts ++ [a, z])).map Char.toLower =
        (Token.joined ts).map Char.toLower ++ "[]".toList := by
    intro ts a z h ha hz
    simp only [List.forall_mem_append, List.forall_mem_cons] at h
    rw [Token.joined_append, Token.joined_cons, Token.joined_cons,
      hmark (m := ("[", .openBracket)) (by decide) h.2.1 ha,
      hmark (m := ("]", .closeBracket)) (by decide) h.2.2.1 hz, List.map_append]
    rfl
  induction h with
  | @word t ty ht h =>
    obtain ⟨text, htext⟩ := hlex t List.mem_cons_self
    obtain ⟨rfl, hblank⟩ := htext.plain (by simp [ht]) (by simp [ht])
    have hword := ofName?_iff_spelling.1 h
    rw [Ty.word, List.filter_eq_self.2 fun c hc => by simp [hblank c hc]] at hword
    simpa [Token.joined] using hword
  | @list t a ts z b ht ha h hz ih =>
    simp only [List.forall_mem_cons, List.forall_mem_append] at hlex
    obtain ⟨⟨text, htext⟩, ha', hts, hz', -⟩ := hlex
    obtain ⟨w, hw, hinner⟩ := List.mem_map.1 (ih hts)
    refine List.mem_map.2 ⟨w, hw, ?_⟩
    rw [Token.joined_cons, Token.joined_cons, Token.joined_append, Token.joined_cons,
      hmark (m := ("<", .less)) (by decide) ha' ha,
      hmark (m := (">", .greater)) (by decide) hz' hz]
    simp only [List.map_append, (ht ▸ htext).list_value, ← hinner, String.toList_append]
    rfl
  | vector h ha hz ih =>
    obtain ⟨w, hw, hinner⟩ := List.mem_map.1 (ih (List.forall_mem_append.1 hlex).1)
    refine List.mem_map.2 ⟨w, hw, ?_⟩
    rw [hbrackets hlex ha hz, ← hinner, String.toList_append]
  | matrix h ha hz ih =>
    obtain ⟨w, hw, hinner⟩ := List.mem_map.1 (ih (List.forall_mem_append.1 hlex).1)
    refine List.mem_map.2 ⟨w, hw, ?_⟩
    rw [hbrackets hlex ha hz, ← hinner, String.toList_append, String.toList_append,
      List.append_assoc]
    rfl

end Ty.Spells

/-- A type is read to the end of the text from the tokens before it. -/
theorem Parse.type_whole {tokens : List Token} {p : Position} {t : Ty} {c : Cursor}
    (hne : ∀ u ∈ tokens, u.kind ≠ .eof)
    (h : Parse.type (Cursor.ofTokens (tokens ++ [Token.eof p])) = .done t c) (hc : c.kind = .eof) :
    t.Spells tokens := by
  have hrest := Cursor.rest_ofTokens_eof tokens p
  obtain ⟨ts, hpass, hspells⟩ := Grammar.type_spells ⟨tokens, _, hrest, rfl⟩ t c h
  rwa [hpass.whole hrest hne hc] at hspells

namespace Ty

/-- A source without comments that is read as a type is a name of it. -/
theorem ofName?_of_read {source : String} {tokens : List Token} {t : Ty} {c : Cursor}
    (hread : Token.read source = .ok tokens)
    (hparse : Parse.type (Cursor.ofTokens tokens) = .done t c) (hc : c.kind = .eof)
    (hfree : CommentFree source) : ofName? source = some t := by
  have hstart : Cut source.toList [] source.toList [] := .start
  rcases Token.goes_of_cut hstart with ⟨more, hmore, hcut⟩ | ⟨d, _, _, _, hd, -⟩
  · obtain rfl := Except.ok.inj (hread.symm.trans hmore)
    have hspells := Parse.type_whole hcut.kind_ne_eof hparse hc
    have hkinds : ∀ t ∈ more, t.kind ≠ .string ∧ t.kind ≠ .char := fun t ht =>
      ⟨(hspells.kind_ne t ht).1, (hspells.kind_ne t ht).2.1⟩
    rw [ofName?_iff_spelling, word, hcut.joined_eq hfree hkinds]
    exact hspells.joined_mem (Token.exists_lexeme hcut)
  · cases hread.symm.trans hd

/-- A name is read as a type other than `error` exactly if, without its white space and in small
letters, it is how the type is written, or how it is written with the long name of `bool`. A
container inside the name of a container is refused. A source without comments that is read as a
type up to its end is a name of that type. -/
theorem names_read (final : List Char → List Char → Bool) :
    (∀ name t, ofName? name = some t ↔ t ≠ error ∧
      (Text.lower final (name.toList.filter (!Text.isBlank ·)) = Text.lower final t.text.toList ∨
        Text.lower final (name.toList.filter (!Text.isBlank ·)) =
          Text.lower final t.longText.toList)) ∧
    (∀ name t, ofName? name = some t → t.isContainer = true →
      ofName? ("List<" ++ name ++ ">") = none ∧
        ∀ u, ofName? (name ++ "[]") = some u → ∃ b, t = vector b ∧ u = matrix b) ∧
    ∀ source tokens t c, Token.read source = .ok tokens →
      Parse.type (Cursor.ofTokens tokens) = .done t c → c.kind = .eof → CommentFree source →
      ofName? source = some t :=
  ⟨fun _ _ => ofName?_iff final, fun _ _ => ofName?_nested, fun _ _ _ _ => ofName?_of_read⟩

/-- A list of truth values over two lines, in mixed case. -/
theorem names_read_booleans :
    let source := " LIST<\n\tBoolean > "
    ∃ tokens c, Token.read source = .ok tokens ∧
      Parse.type (Cursor.ofTokens tokens) = .done (list .bool) c ∧ c.kind = .eof ∧
      CommentFree source ∧ ofName? source = some (list .bool) ∧
      ofName? ("List<" ++ source ++ ">") = none := by
  intro source
  have hread : Token.read source = .ok [⟨.listWord, "LIST", ⟨⟨1, 2⟩, ⟨1, 6⟩⟩⟩,
      ⟨.less, "<", ⟨⟨1, 6⟩, ⟨1, 7⟩⟩⟩, ⟨.typeWord, "Boolean", ⟨⟨2, 2⟩, ⟨2, 9⟩⟩⟩,
      ⟨.greater, ">", ⟨⟨2, 10⟩, ⟨2, 11⟩⟩⟩, ⟨.eof, "EOF", ⟨⟨2, 12⟩, ⟨2, 12⟩⟩⟩] := by
    decide +kernel
  have hfree : CommentFree source := commentFree_of_not_mem (by decide +kernel)
  have hname := (names_read fun _ _ => false).2.2 source _ (list .bool) _ hread rfl rfl hfree
  exact ⟨_, _, hread, rfl, rfl, hfree, hname,
    ((names_read fun _ _ => false).2.1 source _ hname rfl).1⟩

end Ty

end Primer
