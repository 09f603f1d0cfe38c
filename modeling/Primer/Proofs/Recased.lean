import Primer.Proofs.Partition
import Primer.Proofs.Respelling

/-!
# Texts that differ in the case of words

A text is recased by writing its words in other cases (`Recased`): everything that is not a word
stays, and so do the pieces it is cut into. Nothing that settles where a piece ends tells one letter
from another (`Piece.read_alike`), so the same tokens are read, at the same places, and only the
words among them may be spelled differently (`Token.readFrom_recased`).
-/

namespace Primer

/-! ## Letters -/

namespace Text

theorem isBlank_toLower (c : Char) : isBlank c.toLower = isBlank c :=
  toLower_blind isBlank (fun _ hc => Piece.isBlank_of_isWordPart
    (Piece.isWordPart_of_isWordStart (by simp [Piece.isWordStart, hc]))) c

end Text

/-- Where a text leads does not depend on the case of its letters. -/
theorem Position.after_map_toLower (p : Position) (cs : List Char) :
    p.after (cs.map Char.toLower) = p.after cs := by
  have hnext : ∀ (q : Position) (c : Char), q.next c.toLower = q.next c := fun q c => by
    simp only [next, Text.toLower_eq_iff (d := '\n') rfl]
  simp only [after, List.foldl_map, hnext]

/-! ## Pieces -/

namespace Piece

section Extents

variable {test : Char → Bool}

theorem isWordStart_toLower (c : Char) : isWordStart c.toLower = isWordStart c :=
  Text.toLower_blind isWordStart (fun c hc => show isWordStart c = true by simp [isWordStart, hc]) c

theorem isDigit_toLower (c : Char) : c.toLower.isDigit = c.isDigit :=
  Text.toLower_blind Char.isDigit (fun _ hc => Bool.eq_false_iff.mpr fun hd => by
    simpa [isWordStart, hc] using isWordStart_of_isDigit hd) c

theorem isWordPart_toLower (c : Char) : isWordPart c.toLower = isWordPart c := by
  simp only [isWordPart, isWordStart_toLower, isDigit_toLower]

theorem run_map_toLower (h : ∀ c : Char, test c.toLower = test c) (cs : List Char) :
    run test (cs.map Char.toLower) = run test cs := by
  simp only [run, List.takeWhile_map, List.length_map]
  congr 2
  exact funext h

theorem numberRun_map_toLower (cs : List Char) :
    numberRun (cs.map Char.toLower) = numberRun cs := by
  simp only [numberRun, run_map_toLower isDigit_toLower, ← List.map_drop]
  rcases cs.drop (run Char.isDigit cs) with _ | ⟨c, _ | ⟨d, ds⟩⟩
  · rfl
  · simp
  · by_cases hc : c = '.'
    · subst hc
      simp [isDigit_toLower, run_map_toLower isDigit_toLower]
    · simp [hc, Text.toLower_eq_iff (d := '.') rfl]

theorem commentEnd?_map_toLower (cs : List Char) :
    commentEnd? (cs.map Char.toLower) = commentEnd? cs := by
  fun_induction commentEnd? cs with
  | case1 => rfl
  | case2 c rest hne ih =>
    rw [List.map_cons, commentEnd?, ih]
    intro after hc hrest
    obtain ⟨d, ds, rfl, hd, rfl⟩ := List.map_eq_cons_iff.mp hrest
    exact hne ds ((Text.toLower_eq_iff rfl c).mp hc) (by rw [(Text.toLower_eq_iff rfl d).mp hd])
  | case3 => rfl

theorem stringEnd?_map_toLower (cs : List Char) :
    stringEnd? (cs.map Char.toLower) = stringEnd? cs := by
  have hquote := Text.toLower_eq_iff (d := '"') rfl
  have hslash := Text.toLower_eq_iff (d := '\\') rfl
  have hline := Text.toLower_eq_iff (d := '\n') rfl
  fun_induction stringEnd? cs with
  | case1 | case2 | case6 => rfl
  | case3 c rest hn ih => simp [stringEnd?, hline, hn, ih]
  | case4 c rest hq he hn =>
    simp only [Bool.or_eq_true, decide_eq_true_eq] at hn
    rcases hn with rfl | rfl
    · rfl
    · cases rest with
      | nil => rfl
      | cons d rest => exact absurd rfl (he d rest rfl)
  | case5 c rest hq he hn ih =>
    rw [List.map_cons, stringEnd?, ih]
    · simp only [hslash, hline, hn, Bool.false_eq_true, if_false]
    · exact fun h => hq ((hquote c).mp h)
    · intro d ds hc hrest
      obtain ⟨x, xs, rfl, -, -⟩ := List.map_eq_cons_iff.mp hrest
      exact he x xs ((hslash c).mp hc) rfl

theorem charEnd?_map_toLower (cs : List Char) : charEnd? (cs.map Char.toLower) = charEnd? cs := by
  have hquote := Text.toLower_eq_iff (d := '\'') rfl
  have hslash := Text.toLower_eq_iff (d := '\\') rfl
  have hline := Text.toLower_eq_iff (d := '\n') rfl
  -- a plain character before the closing quote is not read as the beginning of an escape
  have hplain : ∀ {c : Char} {cs : List Char}, (∀ ds, c = '\\' → cs = '\'' :: ds → False) →
      ∀ ds, c.toLower = '\\' → cs.map Char.toLower = '\'' :: ds → False := fun h ds hc hcs => by
    obtain ⟨d, ds, rfl, hd, -⟩ := List.map_eq_cons_iff.mp hcs
    exact h ds ((hslash _).mp hc) (by rw [(hquote d).mp hd])
  fun_cases charEnd? cs with
  | case1 => rfl
  | case2 c after hn => simp [charEnd?, hline, hn]
  | case3 c after hc hn =>
    rw [List.map_cons, List.map_cons, (hquote _).mpr rfl, charEnd?]
    · simp only [hquote, hslash, hline, hn, if_true]
    · exact hplain hc
  | case4 c after hc hn =>
    rw [List.map_cons, List.map_cons, (hquote _).mpr rfl, charEnd?]
    · simp only [hquote, hslash, hline, hn, if_false, Bool.false_eq_true]
    · exact hplain hc
  | case5 _ hescape hc =>
    rw [charEnd?]
    · intro c ds hcs
      obtain ⟨x, xs, rfl, hx, hxs⟩ := List.map_eq_cons_iff.mp hcs
      obtain ⟨y, ys, rfl, -, hys⟩ := List.map_eq_cons_iff.mp hxs
      obtain ⟨z, zs, rfl, hz, -⟩ := List.map_eq_cons_iff.mp hys
      rw [hslash] at hx
      rw [hquote] at hz
      exact hescape y zs (by rw [hx, hz])
    · intro c ds hcs
      obtain ⟨x, xs, rfl, -, hxs⟩ := List.map_eq_cons_iff.mp hcs
      obtain ⟨y, ys, rfl, hy, -⟩ := List.map_eq_cons_iff.mp hxs
      rw [hquote] at hy
      exact hc x ys (by rw [hy])

theorem isPrefixOf_map_toLower {mark : List Char} (h : ∀ x ∈ mark, x.isAlpha = false)
    (cs : List Char) : mark.isPrefixOf (cs.map Char.toLower) = mark.isPrefixOf cs := by
  induction mark generalizing cs with
  | nil => rfl
  | cons d mark ih =>
    obtain ⟨hd, hmark⟩ := List.forall_mem_cons.mp h
    cases cs with
    | nil => rfl
    | cons c cs =>
      have hc : (d == c.toLower) = (d == c) := by
        rw [Bool.eq_iff_iff, beq_iff_eq, beq_iff_eq, eq_comm, Text.toLower_eq_iff hd, eq_comm]
      simp only [List.map_cons, List.isPrefixOf, hc, ih hmark]

theorem mark?_map_toLower (cs : List Char) : mark? (cs.map Char.toLower) = mark? cs := by
  have hall : ∀ m ∈ TokenKind.marks, m.1.toList.all fun x => !x.isAlpha := by decide
  have hfind : TokenKind.marks.find? (fun m => m.1.toList.isPrefixOf (cs.map Char.toLower)) =
      TokenKind.marks.find? fun m => m.1.toList.isPrefixOf cs :=
    List.find?_congr fun m hm => isPrefixOf_map_toLower (by simpa using hall m hm) cs
  simp only [mark?, hfind]

theorem head?_map_toLower {d : Char} (hd : d.isAlpha = false) (cs : List Char) :
    (cs.map Char.toLower).head? = some d ↔ cs.head? = some d := by
  cases cs with
  | nil => simp
  | cons c cs => simp [Text.toLower_eq_iff hd]

end Extents

section Reading

variable {c c' : Char} {cs cs' rest rest' : List Char} {n : Nat} {kind : TokenKind} {value : String}

/-- What `run` and the like find in a text does not depend on the case of its letters. -/
theorem eq_of_map_toLower {β : Type} {g : List Char → β} (hg : ∀ cs, g (cs.map Char.toLower) = g cs)
    (h : rest'.map Char.toLower = rest.map Char.toLower) : g rest' = g rest := by
  rw [← hg, h, hg]

theorem wordKind_alike (h : cs'.map Char.toLower = cs.map Char.toLower) :
    wordKind cs' = wordKind cs := by
  have hword : Text.plainLower (String.ofList cs') = Text.plainLower (String.ofList cs) := by
    simp only [Text.plainLower, String.toList_ofList, h]
  simp only [wordKind, ← Text.fold_plainLower (String.ofList _), hword]

theorem head?_alike {d : Char} (hd : d.isAlpha = false)
    (h : rest'.map Char.toLower = rest.map Char.toLower) :
    rest'.head? = some d ↔ rest.head? = some d := by
  rw [← head?_map_toLower hd, h, head?_map_toLower hd]

theorem literal_alike (h : rest'.take n = rest.take n) :
    literal kind rest' n = literal kind rest n := by
  have htake := congrArg (List.take (n - 1)) h
  simp only [List.take_take, Nat.min_eq_left (Nat.sub_le n 1)] at htake
  simp only [literal, htake]

/-- Where the text is a comment or a mark, the same one is read. -/
theorem read_other (hc : Other c) (h : rest'.map Char.toLower = rest.map Char.toLower) :
    read c rest' = read c rest := by
  have hslash := head?_alike (d := '/') rfl h
  have hstar := head?_alike (d := '*') rfl h
  by_cases hmark : c = '/' → rest.head? ≠ some '/' ∧ rest.head? ≠ some '*'
  · have hall : (c :: rest').map Char.toLower = (c :: rest).map Char.toLower := by simp [h]
    rw [read_mark hc hmark, read_mark hc (by simpa only [ne_eq, hslash, hstar] using hmark),
      eq_of_map_toLower mark?_map_toLower hall]
  · simp only [ne_eq, Classical.not_imp, not_and_or, not_not] at hmark
    obtain ⟨rfl, hhead | hhead⟩ := hmark
    · obtain ⟨after, rfl⟩ := List.head?_eq_some_iff.mp hhead
      obtain ⟨after', rfl⟩ := List.head?_eq_some_iff.mp (hslash.mpr hhead)
      have hline : ∀ c : Char, (c.toLower != '\n') = (c != '\n') := fun c => by
        simp only [bne, beq_eq_decide, Text.toLower_eq_iff (d := '\n') rfl]
      rw [read_line, read_line, eq_of_map_toLower (run_map_toLower hline) h]
    · obtain ⟨after, rfl⟩ := List.head?_eq_some_iff.mp hhead
      obtain ⟨after', rfl⟩ := List.head?_eq_some_iff.mp (hstar.mpr hhead)
      rw [read_block, read_block, eq_of_map_toLower commentEnd?_map_toLower (List.cons.inj h).2]

/-- The piece at the beginning of a text depends on the characters it is made of, and on the others
only up to case. -/
theorem read_alike (h : rest'.map Char.toLower = rest.map Char.toLower)
    (hpiece : ∀ piece, read c rest = .ok piece → rest'.take piece.more = rest.take piece.more) :
    read c rest' = read c rest := by
  by_cases hb : Text.isBlank c
  · rw [read_blank hb, read_blank hb, eq_of_map_toLower (run_map_toLower Text.isBlank_toLower) h]
  by_cases hw : isWordStart c
  · have htake : rest'.take (run isWordPart rest) = rest.take (run isWordPart rest) :=
      hpiece _ (read_word hw)
    rw [read_word hw, read_word hw, eq_of_map_toLower (run_map_toLower isWordPart_toLower) h, htake]
  by_cases hd : c.isDigit
  · have htake : rest'.take (numberRun rest) = rest.take (numberRun rest) :=
      hpiece _ (read_digit hd)
    rw [read_digit hd, read_digit hd, eq_of_map_toLower numberRun_map_toLower h, htake]
  by_cases hs : c = '"'
  · subst hs
    rw [read_string] at hpiece ⊢
    rw [read_string, eq_of_map_toLower stringEnd?_map_toLower h]
    cases hend : stringEnd? rest with
    | none => rfl
    | some n =>
      have htake : rest'.take n = rest.take n := hpiece (literal .string rest n) (by rw [hend]; rfl)
      simp only [Option.elim_some, literal_alike htake]
  by_cases hq : c = '\''
  · subst hq
    rw [read_char] at hpiece ⊢
    rw [read_char, eq_of_map_toLower charEnd?_map_toLower h]
    cases hend : charEnd? rest with
    | none => rfl
    | some n =>
      have htake : rest'.take n = rest.take n := hpiece (literal .char rest n) (by rw [hend]; rfl)
      simp only [Option.elim_some, literal_alike htake]
  exact read_other ⟨by simpa using hb, by simpa using hw, by simpa using hd, hs, hq⟩ h

end Reading

end Piece

/-! ## Words in another case -/

/-- Whether tokens of a kind are words: names, reserved words and the names of types. -/
def TokenKind.isWord : TokenKind → Bool
  | .eof | .number | .string | .char => false
  | kind => TokenKind.marks.all (·.2 != kind)

/-- The second text is the first with its words in other cases. Where nothing more can be read,
there are no words left to tell, and case does not matter at all. -/
inductive Recased : List Char → List Char → Prop
  | done : Recased [] []
  | stuck {c : Char} {rest rest' : List Char} {fault : Fault} :
      Piece.read c rest = .error fault → rest'.map Char.toLower = rest.map Char.toLower →
      Recased (c :: rest) (c :: rest')
  | same {c : Char} {cs after after' : List Char} {piece : Piece} :
      Piece.read c (cs ++ after) = .ok piece → piece.more = cs.length → Recased after after' →
      Recased (c :: (cs ++ after)) (c :: (cs ++ after'))
  | word {c c' : Char} {cs cs' after after' : List Char} {kind : TokenKind} {value : String} :
      Piece.read c (cs ++ after) = .ok (.token cs.length kind value) → kind.isWord →
      (c' :: cs').map Char.toLower = (c :: cs).map Char.toLower → Recased after after' →
      Recased (c :: (cs ++ after)) (c' :: (cs' ++ after'))

theorem Recased.map_toLower {cs cs' : List Char} (h : Recased cs cs') :
    cs'.map Char.toLower = cs.map Char.toLower := by
  induction h with
  | done => rfl
  | stuck _ hrest => rw [List.map_cons, hrest, List.map_cons]
  | same _ _ _ ih => simp only [List.map_cons, List.map_append, ih]
  | word _ _ hword _ ih =>
    rw [← List.cons_append, ← List.cons_append, List.map_append, List.map_append, hword, ih]

namespace Piece

variable {c c' : Char} {cs cs' after after' : List Char} {kind : TokenKind} {value : String}

theorem exists_extent {rest : List Char} {piece : Piece} (hr : read c rest = .ok piece) :
    ∃ cs after, rest = cs ++ after ∧ piece.more = cs.length := by
  have ht := hr ▸ taken c rest
  cases ht with
  | gap => exact ⟨_, _, rfl, rfl⟩
  | token => exact ⟨_, _, rfl, rfl⟩

theorem isWordStart_of_read {rest : List Char} {n : Nat} (hk : kind.isWord)
    (hr : read c rest = .ok (.token n kind value)) : isWordStart c := by
  have ht := hr ▸ taken c rest
  cases ht with
  | @token cs after kind value hl =>
    generalize htext : c :: cs = text at hl
    cases hl with
    | word hw => cases htext; exact hw
    | mark hm =>
      have hall : ∀ m ∈ TokenKind.marks, m.2.isWord = false := by decide
      rw [hall _ hm] at hk
      cases hk
    | _ => cases hk

/-- A word in another case is a word of the same kind. -/
theorem read_recased (hk : kind.isWord)
    (hr : read c (cs ++ after) = .ok (.token cs.length kind value))
    (hword : (c' :: cs').map Char.toLower = (c :: cs).map Char.toLower)
    (hafter : after'.map Char.toLower = after.map Char.toLower) :
    read c' (cs' ++ after') = .ok (.token cs.length kind (String.ofList (c' :: cs'))) ∧
      value = String.ofList (c :: cs) := by
  have hw := isWordStart_of_read hk hr
  obtain ⟨hc, hcs⟩ := List.cons.inj hword
  have hw' : isWordStart c' := by rwa [← isWordStart_toLower, hc, isWordStart_toLower]
  have hlength : cs'.length = cs.length := by simpa using congrArg List.length hcs
  have hrun : run isWordPart (cs' ++ after') = run isWordPart (cs ++ after) :=
    eq_of_map_toLower (run_map_toLower isWordPart_toLower) (by simp [hcs, hafter])
  rw [read_word hw] at hr
  simp only [Except.ok.injEq, token.injEq] at hr
  obtain ⟨hn, rfl, rfl⟩ := hr
  rw [read_word hw', hrun, hn, List.take_left, ← hlength, List.take_left, wordKind_alike hword]
  exact ⟨rfl, rfl⟩

end Piece

namespace Recased

/-- Whether what a text begins with, a piece of `cs`, may be written as `cs'`. -/
def allows (cs cs' : List Char) : Piece → Bool
  | .token _ kind _ =>
    if kind.isWord then cs'.map Char.toLower == cs.map Char.toLower else cs' == cs
  | .gap _ => cs' == cs

/-- Whether the second text is the first recased. -/
def test : List Char → List Char → Bool
  | [], cs' => cs'.isEmpty
  | _ :: _, [] => false
  | c :: rest, c' :: rest' =>
    match Piece.read c rest with
    | .error _ => c' == c && rest'.map Char.toLower == rest.map Char.toLower
    | .ok piece =>
      allows (c :: rest.take piece.more) (c' :: rest'.take piece.more) piece &&
        test (rest.drop piece.more) (rest'.drop piece.more)
termination_by cs => cs.length
decreasing_by simp only [List.length_drop, List.length_cons]; omega

theorem allows_self (cs : List Char) (piece : Piece) : allows cs cs piece = true := by
  cases piece <;> simp [allows]

theorem of_allows {c c' : Char} {cs cs' after after' : List Char} {piece : Piece}
    (hr : Piece.read c (cs ++ after) = .ok piece) (hn : piece.more = cs.length)
    (hallows : allows (c :: cs) (c' :: cs') piece = true) (h : Recased after after') :
    Recased (c :: (cs ++ after)) (c' :: (cs' ++ after')) := by
  have hsame : (c' :: cs' == c :: cs) = true →
      Recased (c :: (cs ++ after)) (c' :: (cs' ++ after')) := by
    intro heq
    obtain ⟨rfl, rfl⟩ := List.cons.inj (LawfulBEq.eq_of_beq heq)
    exact .same hr hn h
  cases piece with
  | gap n => exact hsame hallows
  | token n kind value =>
    obtain rfl : n = cs.length := hn
    cases hk : kind.isWord with
    | true =>
      simp only [allows, hk, if_true, beq_iff_eq] at hallows
      exact .word hr hk hallows h
    | false =>
      simp only [allows, hk, Bool.false_eq_true, if_false] at hallows
      exact hsame hallows

theorem test_iff (cs cs' : List Char) : test cs cs' = true ↔ Recased cs cs' := by
  constructor
  · intro h
    fun_induction test cs cs' with
    | case1 cs' =>
      obtain rfl := List.isEmpty_iff.mp h
      exact .done
    | case2 => cases h
    | case3 c rest c' rest' fault hr =>
      simp only [Bool.and_eq_true, beq_iff_eq] at h
      obtain ⟨rfl, hrest⟩ := h
      exact .stuck hr hrest
    | case4 c rest c' rest' piece hr ih =>
      simp only [Bool.and_eq_true] at h
      obtain ⟨cs, after, rfl, hn⟩ := Piece.exists_extent hr
      simp only [hn, List.take_left, List.drop_left] at h ih
      rw [← List.take_append_drop cs.length rest']
      exact of_allows hr hn h.1 (ih h.2)
  · intro h
    induction h with
    | done =>
      rw [test.eq_def]
      rfl
    | stuck hr hrest =>
      rw [test.eq_def]
      simp only [hr, hrest, BEq.rfl, Bool.and_self]
    | same hr hn _ ih =>
      rw [test.eq_def]
      simp only [hr, hn, List.take_left, List.drop_left, allows_self, ih, Bool.and_self]
    | @word c c' cs cs' after after' kind value hr hk hword _ ih =>
      have hlength : cs.length = cs'.length := by simpa using (congrArg List.length hword).symm
      rw [test.eq_def]
      simp only [hr, Piece.more, List.take_left, List.drop_left]
      rw [hlength, List.take_left, List.drop_left]
      simp only [allows, hk, if_true, Bool.and_eq_true, beq_iff_eq]
      exact ⟨hword, ih⟩

instance (cs cs' : List Char) : Decidable (Recased cs cs') := decidable_of_iff _ (test_iff cs cs')

/-- The case of a string is part of it, that of a name is not. -/
example : Recased "a = \"b\";".toList "A = \"b\";".toList ∧
    ¬ Recased "a = \"b\";".toList "a = \"B\";".toList := by decide +kernel

end Recased

namespace Token

/-- A token with its value respelled if it is a word. -/
def respell (f : Respelling) (t : Token) : Token :=
  { t with value := if t.kind.isWord then f t.value else t.value }

theorem map_append_respell (f : Respelling) (ts : List Token) (r : Except Diagnostic (List Token)) :
    (r.map (ts ++ ·)).map (List.map (respell f)) =
      (r.map (List.map (respell f))).map (ts.map (respell f) ++ ·) := by
  cases r with
  | error d => rfl
  | ok us => exact congrArg Except.ok List.map_append

/-- Recased texts are read alike: what is refused in one is refused at the same place in the other,
and the tokens differ in the case of words only. -/
theorem readFrom_recased {cs cs' : List Char} (h : Recased cs cs') (p : Position) :
    (readFrom p cs').map (List.map (respell .lower)) =
      (readFrom p cs).map (List.map (respell .lower)) := by
  induction h generalizing p with
  | done => rfl
  | stuck hr hrest =>
    have hr' := (Piece.read_alike hrest fun piece hpiece => by cases hr.symm.trans hpiece).trans hr
    rw [readFrom_of_error hr, readFrom_of_error hr']
  | @same c cs after after' piece hr hn h ih =>
    have hr' : Piece.read c (cs ++ after') = .ok piece := by
      refine (Piece.read_alike (by simp [h.map_toLower]) fun piece' hpiece => ?_).trans hr
      cases hr.symm.trans hpiece
      rw [hn, List.take_left, List.take_left]
    rw [readFrom_of_ok hr hn, readFrom_of_ok hr' hn, map_append_respell, map_append_respell, ih]
  | @word c c' cs cs' after after' kind value hr hk hword h ih =>
    obtain ⟨hr', rfl⟩ := Piece.read_recased hk hr hword h.map_toLower
    have hlength : cs'.length = cs.length := by simpa using congrArg List.length hword
    have hplace : p.after (c' :: cs') = p.after (c :: cs) := by
      rw [← Position.after_map_toLower, hword, Position.after_map_toLower]
    rw [readFrom_of_ok hr rfl, readFrom_of_ok hr' hlength.symm, map_append_respell,
      map_append_respell, hplace, ih]
    simp only [Piece.tokens, List.map_cons, List.map_nil, respell, hk, if_true,
      Respelling.lower_apply, Text.plainLower, String.toList_ofList, hword]

end Token

end Primer
