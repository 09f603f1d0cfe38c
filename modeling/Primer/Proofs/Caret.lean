import Primer.Proofs.Partition

/-!
# The caret of a shown diagnostic

A shown diagnostic ends in two rows, a line of the source and a caret. The line loses its
indentation, which is taken off the column as well, and the white space at its end, which no
pointed character is part of; so the caret stands under the character of its column
(`Diagnostic.render_points`).

Columns are counted by reading characters, lines are cut out of the text, and a carriage return at
the end of a line belongs to the column count and not to the line. For a character that is no white
space the two agree: it stands in the line and at the column of the place up to which the text was
read (`Text.line?_behind`).
-/

namespace Primer

namespace Text

variable {test : Char → Bool} {c : Char} {xs ys cs acc pre line : List Char}

theorem takeWhile_append_stop (h : test c = false) (xs ys : List Char) :
    (xs ++ c :: ys).takeWhile test = xs.takeWhile test := by
  induction xs with
  | nil => simp [h]
  | cons x xs ih => by_cases hx : test x = true <;> simp [hx, ih]

theorem dropWhile_append_stop (h : test c = false) (xs ys : List Char) :
    (xs ++ c :: ys).dropWhile test = xs.dropWhile test ++ c :: ys := by
  induction xs with
  | nil => simp [h]
  | cons x xs ih => by_cases hx : test x = true <;> simp [hx, ih]

/-- What is trimmed off the end of a text stands behind its last visible character. -/
theorem trimEnd_append_stop (h : isBlank c = false) (xs ys : List Char) :
    trimEnd (xs ++ c :: ys) = xs ++ c :: trimEnd ys := by
  unfold trimEnd
  rw [List.reverse_append, List.reverse_cons, List.append_assoc, List.singleton_append,
    dropWhile_append_stop h]
  simp

theorem trimEnd_prefix (cs : List Char) : trimEnd cs <+: cs := by
  unfold trimEnd
  have h := List.reverse_prefix.2 (List.dropWhile_suffix isBlank (l := cs.reverse))
  rwa [List.reverse_reverse] at h

/-! ## Lines -/

theorem mem_dropReturn {x : Char} (h : x ∈ dropReturn cs) : x ∈ cs := by
  unfold dropReturn at h
  split at h
  · exact List.mem_cons_of_mem _ h
  · exact h

/-- No line has a line feed in it. -/
theorem not_feed_linesFrom : ∀ {cs acc : List Char}, '\n' ∉ acc →
    ∀ line ∈ linesFrom acc cs, '\n' ∉ line
  | [], acc, hacc, line, h => by
    unfold linesFrom at h
    split at h
    · simp at h
    · rw [List.mem_singleton.1 h, List.mem_reverse]
      exact hacc
  | d :: cs, acc, hacc, line, h => by
    unfold linesFrom at h
    by_cases hd : d = '\n'
    · rw [if_pos hd] at h
      rcases List.mem_cons.1 h with rfl | h
      · rw [List.mem_reverse]
        exact fun hmem => hacc (mem_dropReturn hmem)
      · exact not_feed_linesFrom (List.not_mem_nil) line h
    · rw [if_neg hd] at h
      refine not_feed_linesFrom (fun hmem => ?_) line h
      rcases List.mem_cons.1 hmem with rfl | hmem
      · exact hd rfl
      · exact hacc hmem

/-- What has been read of a line stands in it, if its last character is no carriage return. -/
theorem prefix_linesFrom (hc : c ≠ '\r') : ∀ (cs : List Char) {acc : List Char},
    pre ++ [c] <+: acc.reverse →
      ∃ line rest, linesFrom acc cs = line :: rest ∧ pre ++ [c] <+: line
  | [], acc, h => by
    have hne : acc.isEmpty = false := by
      rcases acc with _ | ⟨a, acc⟩
      · simp at h
      · rfl
    unfold linesFrom
    exact ⟨acc.reverse, [], by simp [hne], h⟩
  | d :: cs, acc, h => by
    unfold linesFrom
    by_cases hd : d = '\n'
    · rw [if_pos hd]
      refine ⟨_, _, rfl, ?_⟩
      unfold dropReturn
      split
      · rename_i acc
        rw [List.reverse_cons] at h
        rcases List.prefix_concat_iff.1 h with heq | hpre
        · exact absurd (List.append_inj_right' heq rfl) (by simpa using hc)
        · exact hpre
      · exact h
    · rw [if_neg hd]
      refine prefix_linesFrom hc cs (h.trans ?_)
      rw [List.reverse_cons]
      exact List.prefix_append _ _

/-- The line in which a character stands begins with what was read since the last line feed. -/
theorem linesFrom_behind (hc : isBlank c = false) (after : List Char) :
    ∀ (before : List Char) {acc : List Char}, '\n' ∉ acc →
      ∃ line, (linesFrom acc (before ++ c :: after))[before.count '\n']? = some line ∧
        ((before.reverse ++ acc).takeWhile (· != '\n')).reverse ++ [c] <+: line
  | [], acc, hacc => by
    have hfeed : c ≠ '\n' := by
      rintro rfl
      cases hc
    have hreturn : c ≠ '\r' := by
      rintro rfl
      cases hc
    have hall : acc.takeWhile (· != '\n') = acc := by
      rw [List.takeWhile_eq_self_iff]
      intro x hx
      by_cases hxn : x = '\n'
      · exact absurd (hxn ▸ hx) hacc
      · simpa using hxn
    have hread : acc.reverse ++ [c] <+: (c :: acc).reverse := by
      rw [List.reverse_cons]
    obtain ⟨line, rest, hlines, hpre⟩ := prefix_linesFrom hreturn after hread
    refine ⟨line, ?_, ?_⟩
    · rw [List.nil_append, linesFrom, if_neg hfeed, hlines]
      rfl
    · rwa [List.reverse_nil, List.nil_append, hall]
  | d :: before, acc, hacc => by
    by_cases hd : d = '\n'
    · subst hd
      have hnil : '\n' ∉ [] := List.not_mem_nil
      obtain ⟨line, hline, hpre⟩ := linesFrom_behind hc after before hnil
      refine ⟨line, ?_, ?_⟩
      · rw [List.cons_append, linesFrom, if_pos rfl, List.count_cons_self,
          List.getElem?_cons_succ, hline]
      · rw [List.reverse_cons, List.append_assoc, List.singleton_append,
          takeWhile_append_stop (by rfl)]
        rwa [List.append_nil] at hpre
    · have hcons : '\n' ∉ d :: acc := by
        intro hmem
        rcases List.mem_cons.1 hmem with rfl | hmem
        · exact hd rfl
        · exact hacc hmem
      obtain ⟨line, hline, hpre⟩ := linesFrom_behind hc after before hcons
      refine ⟨line, ?_, ?_⟩
      · rw [List.cons_append, linesFrom, if_neg hd, List.count_cons_of_ne hd, hline]
      · rwa [List.reverse_cons, List.append_assoc, List.singleton_append]

/-- A visible character stands in the line and at the column of the place behind what is before
it. -/
theorem line?_behind {source : String} {before after : List Char}
    (h : source.toList = before ++ c :: after) (hc : isBlank c = false) :
    ∃ line, line? source (Position.behind before).line = some line ∧
      line.toList[(Position.behind before).column - 1]? = some c := by
  have hnil : '\n' ∉ [] := List.not_mem_nil
  obtain ⟨line, hline, hpre⟩ := linesFrom_behind hc after before hnil
  refine ⟨String.ofList line, ?_, ?_⟩
  · unfold Position.behind line? lines
    rw [h]
    exact congrArg (Option.map String.ofList) hline
  · rw [List.append_nil] at hpre
    obtain ⟨rest, rfl⟩ := hpre
    have hlen : (Position.behind before).column - 1 =
        ((before.reverse.takeWhile (· != '\n')).reverse).length := by
      simp [Position.behind]
    rw [hlen, String.toList_ofList, List.append_assoc, List.getElem?_append_right (le_refl _)]
    simp

theorem not_feed_line? {source line : String} {n : Nat} (h : line? source n = some line) :
    '\n' ∉ line.toList := by
  rcases n with _ | n
  · cases h
  · obtain ⟨cs, hcs, rfl⟩ := Option.map_eq_some_iff.1 h
    rw [String.toList_ofList]
    exact not_feed_linesFrom List.not_mem_nil cs (List.mem_of_getElem? hcs)

end Text

namespace Diagnostic

/-- A shown text ends in two rows. The first is a numbered line without its indentation and the
white space at its end, and in the second nothing stands but a caret, under the character between
`before` and `after` in that line. -/
structure Points (number : Nat) (before : List Char) (c : Char) (after : List Char)
    (shown head tail pad : List Char) : Prop where
  rows : shown = head ++ '\n' :: ((toString number ++ " | ").toList ++
    before.dropWhile isIndent ++ c :: tail) ++ '\n' :: (pad ++ ['^']) ++ ['\n']
  tail_of : tail <+: after
  aligned : pad.length =
    ((toString number ++ " | ").toList ++ before.dropWhile isIndent).length
  one_row : '\n' ∉ (toString number ++ " | ").toList ++ before.dropWhile isIndent ++ c :: tail
  pad_of : ∀ x ∈ pad, x = ' ' ∨ x = '|' ∨ x = '-'

variable {c : Char} {before after : List Char} {source line : String} {p : Position}
  {d : Diagnostic}

theorem isIndent_of_visible (h : Text.isBlank c = false) : isIndent c = false := by
  unfold isIndent
  rw [Bool.or_eq_false_iff, beq_eq_false_iff_ne, beq_eq_false_iff_ne]
  constructor <;> (rintro rfl; cases h)

theorem not_feed_number (n : Nat) : '\n' ∉ (toString n).toList := by
  intro h
  rw [Nat.toString_eq_repr, Nat.toList_repr] at h
  exact absurd (Nat.isDigit_of_mem_toDigits (by decide) (by decide) h) (by decide)

/-- What stands left of the caret, up to where the lines begin. -/
def bar (number : Nat) : List Char :=
  List.replicate ((toString number).length + 1) ' ' ++ ['|']

theorem snippet_toList (p : Position) (line : String) :
    (snippet p line).toList = bar p.line ++
      '\n' :: ((toString p.line ++ " | ").toList ++
        Text.trimEnd (line.toList.dropWhile isIndent)) ++
      '\n' :: (bar p.line ++ ' ' :: List.replicate (max 1 (p.column -
        (line.length - (line.toList.dropWhile isIndent).length)) - 1) '-' ++ ['^']) ++ ['\n'] := by
  have hone : "|".length = 1 ∧ "^".length = 1 := ⟨rfl, rfl⟩
  simp [snippet, bar, Text.padStart, hone]

/-- A line with a character at the column is shown with the caret under that character. -/
theorem snippet_points (hline : line.toList = before ++ c :: after) (hfeed : '\n' ∉ line.toList)
    (hcol : p.column = before.length + 1) (hc : Text.isBlank c = false) :
    ∃ tail pad, Points p.line before c after (snippet p line).toList (bar p.line) tail pad := by
  have hshown : line.toList.dropWhile isIndent = before.dropWhile isIndent ++ c :: after := by
    rw [hline, Text.dropWhile_append_stop (isIndent_of_visible hc)]
  have hlen : line.length = before.length + after.length + 1 := by
    rw [← String.length_toList, hline, List.length_append, List.length_cons]
    omega
  have hle := (List.dropWhile_suffix isIndent (l := before)).length_le
  have hdashes : max 1 (p.column - (line.length - (line.toList.dropWhile isIndent).length)) - 1 =
      (before.dropWhile isIndent).length := by
    rw [hshown, List.length_append, List.length_cons]
    omega
  refine ⟨Text.trimEnd after,
    bar p.line ++ ' ' :: List.replicate (before.dropWhile isIndent).length '-', ?_,
    Text.trimEnd_prefix after, ?_, ?_, ?_⟩
  · rw [snippet_toList, hdashes, hshown, Text.trimEnd_append_stop hc, ← List.append_assoc]
  · have hthree : " | ".length = 3 := rfl
    simp only [bar, String.toList_append, List.length_append, List.length_cons, List.length_nil,
      List.length_replicate, String.length_toList, hthree]
    omega
  · intro h
    rw [hline] at hfeed
    rw [String.toList_append, List.append_assoc, List.append_assoc] at h
    rcases List.mem_append.1 h with h | h
    · exact not_feed_number _ h
    rcases List.mem_append.1 h with h | h
    · exact absurd h (by decide)
    rcases List.mem_append.1 h with h | h
    · exact hfeed (List.mem_append_left _ ((List.dropWhile_suffix _).mem h))
    rcases List.mem_cons.1 h with rfl | h
    · exact hfeed (List.mem_append_right _ List.mem_cons_self)
    · exact hfeed (List.mem_append_right _
        (List.mem_cons_of_mem _ ((Text.trimEnd_prefix after).mem h)))
  · intro x hx
    simp [bar] at hx
    tauto

theorem render_toList (file : String) (hline : Text.line? source d.position.line = some line) :
    ∃ header, (d.render file source).toList = header ++ (snippet d.position line).toList := by
  unfold render
  rw [hline, Option.map_some, Option.getD_some, String.toList_append]
  exact ⟨_, rfl⟩

/-- Where the line of a diagnostic has a visible character at its column, the diagnostic is shown
with the caret under that character. -/
theorem render_points (file : String) (hline : Text.line? source d.position.line = some line)
    (hsplit : line.toList = before ++ c :: after)
    (hcol : d.position.column = before.length + 1) (hc : Text.isBlank c = false) :
    ∃ head tail pad,
      Points d.position.line before c after (d.render file source).toList head tail pad := by
  obtain ⟨header, hheader⟩ := render_toList file hline
  obtain ⟨tail, pad, h⟩ := snippet_points hsplit (Text.not_feed_line? hline) hcol hc
  refine ⟨header ++ bar d.position.line, tail, pad, { h with rows := ?_ }⟩
  rw [hheader, h.rows]
  simp only [List.append_assoc]

end Diagnostic

namespace Token

/-- The character that begins no token is a visible one at the place where reading stopped. -/
theorem read_unrecognised {source token : String} {d : Diagnostic} (h : read source = .error d)
    (hd : d.fault = .unrecognisedToken token) :
    ∃ before c after, source.toList = before ++ c :: after ∧
      token = String.singleton c ∧ d.position = .behind before ∧ Text.isBlank c = false := by
  rcases read_partitions source with
    ⟨_, hread, -⟩ | ⟨d', before, rest, _, hread, hsource, -, hp, hstuck⟩
  · cases h.symm.trans hread
  · obtain rfl : d = d' := Except.error.inj (h.symm.trans hread)
    rw [hd] at hstuck
    cases hstuck with
    | @unrecognised c after _ _ hpart =>
      have hblank : ¬ Text.isBlank c = true := fun hc =>
        hpart [c] (List.prefix_append [c] after) (.inl (.blank hc (by simp)))
      exact ⟨before, c, after, hsource, rfl, hp, Bool.eq_false_iff.2 hblank⟩

end Token

/-- The caret stands under the character at the place of a diagnostic, if there is one there that
is no white space; and there is one for every text that holds a character no token begins with,
which is that character. -/
theorem caret_points (file source : String) (d : Diagnostic) :
    (∀ line c, Text.line? source d.position.line = some line → 0 < d.position.column →
      line.toList[d.position.column - 1]? = some c → Text.isBlank c = false →
      ∃ head tail pad, Diagnostic.Points d.position.line
        (line.toList.take (d.position.column - 1)) c (line.toList.drop d.position.column)
        (d.render file source).toList head tail pad) ∧
    ∀ token, Token.read source = .error d → d.fault = .unrecognisedToken token →
      ∃ line c, Text.line? source d.position.line = some line ∧ 0 < d.position.column ∧
        line.toList[d.position.column - 1]? = some c ∧ token = String.singleton c ∧
        ∃ head tail pad, Diagnostic.Points d.position.line
          (line.toList.take (d.position.column - 1)) c (line.toList.drop d.position.column)
          (d.render file source).toList head tail pad := by
  have hpoints : ∀ line c, Text.line? source d.position.line = some line →
      0 < d.position.column → line.toList[d.position.column - 1]? = some c →
      Text.isBlank c = false → ∃ head tail pad, Diagnostic.Points d.position.line
        (line.toList.take (d.position.column - 1)) c (line.toList.drop d.position.column)
        (d.render file source).toList head tail pad := by
    intro line c hline hpos hc hblank
    obtain ⟨hlt, hget⟩ := List.getElem?_eq_some_iff.1 hc
    refine Diagnostic.render_points file hline ?_ ?_ hblank
    · have hdrop := List.drop_eq_getElem_cons hlt
      rw [hget, Nat.sub_add_cancel hpos] at hdrop
      rw [← hdrop, List.take_append_drop]
    · rw [List.length_take]
      omega
  refine ⟨hpoints, fun token hread hfault => ?_⟩
  obtain ⟨before, c, after, hsource, htoken, hp, hblank⟩ := Token.read_unrecognised hread hfault
  obtain ⟨line, hline, hc⟩ := Text.line?_behind hsource hblank
  rw [← hp] at hline hc
  have hpos : 0 < d.position.column := by
    rw [hp]
    exact Nat.succ_pos _
  exact ⟨line, c, hline, hpos, hc, htoken, hpoints line c hline hpos hc hblank⟩

/-- An indented line that is not the first, and a character that no token begins with. -/
theorem caret_points_indented :
    let source := "var a: int = 1;\r\n\t  println(b);\r\n"
    let d : Diagnostic := ⟨.undeclaredIdentifier "b", ⟨2, 12⟩⟩
    let e : Diagnostic := ⟨.unrecognisedToken "#", ⟨2, 2⟩⟩
    (Text.line? source 2 = some "\t  println(b);" ∧ ∃ head tail pad,
      Diagnostic.Points 2 "\t  println(".toList 'b' ");".toList
        (d.render "main.usl" source).toList head tail pad) ∧
    Token.read "\n # a" = .error e ∧ ∃ head tail pad,
      Diagnostic.Points 2 [' '] '#' [' ', 'a'] (e.render "main.usl" "\n # a").toList
        head tail pad := by
  intro source d e
  have hline : Text.line? source 2 = some "\t  println(b);" := by decide
  have hgap : Piece.read '\n' [' ', '#', ' ', 'a'] = .ok (.gap 1) := rfl
  have hstuck : Piece.read '#' [' ', 'a'] = .error (.unrecognisedToken "#") := rfl
  have hread : Token.read "\n # a" = .error e := by
    have hrest : Token.readFrom (Position.start.after ('\n' :: List.take 1 [' ', '#', ' ', 'a']))
        (List.drop 1 [' ', '#', ' ', 'a']) = .error e := by
      change Token.readFrom ⟨2, 2⟩ ['#', ' ', 'a'] = .error e
      unfold Token.readFrom
      rw [hstuck]
    calc Token.read "\n # a" = Token.readFrom .start ['\n', ' ', '#', ' ', 'a'] := rfl
      _ = .error e := by
        unfold Token.readFrom
        rw [hgap]
        simp only [Piece.more, hrest]
  refine ⟨⟨hline, (caret_points "main.usl" source d).1 _ 'b' hline (by decide) (by decide) rfl⟩,
    hread, ?_⟩
  obtain ⟨line, c, hline, -, hc, htoken, hpoints⟩ :=
    (caret_points "main.usl" "\n # a" e).2 "#" hread rfl
  have hrow : Text.line? "\n # a" 2 = some " # a" := by decide
  obtain rfl : " # a" = line := Option.some.inj (hrow.symm.trans hline)
  obtain rfl : '#' = c := Option.some.inj hc
  exact hpoints

end Primer
