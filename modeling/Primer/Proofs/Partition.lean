import Primer.Proofs.Lexeme

/-!
# Reading cuts the source into tokens and gaps

The text that has been read is a row of pieces, each the longest where it begins, and the places
of a token are those of the text before it and of the text up to its end. Reading ends at the end
of the source, or at the first place where no piece can be taken.
-/

namespace Primer

/-- The place behind a text: its line feeds open the lines, and the columns count the characters
since the last of them. -/
def Position.behind (before : List Char) : Position :=
  ⟨before.count '\n' + 1, (before.reverse.takeWhile (· != '\n')).length + 1⟩

theorem Position.after_start (cs : List Char) : start.after cs = behind cs := by
  induction cs using List.reverseRecOn with
  | nil => rfl
  | append_singleton cs c ih =>
    rw [after_append, ih]
    unfold behind after
    by_cases hc : c = '\n' <;> simp [next, hc]

/-- The text `before` is cut into pieces, and these are the tokens among them. What comes `after`
is still to be cut. -/
inductive Cut (source : List Char) : List Char → List Char → List Token → Prop
  | start : Cut source [] source []
  | gap {before text after : List Char} {tokens : List Token} :
      Cut source before (text ++ after) tokens → (∀ fault, ¬ Stuck fault (text ++ after)) →
      Gap text → Longest text after → Cut source (before ++ text) after tokens
  | token {before text after : List Char} {tokens : List Token} {kind : TokenKind}
      {value : String} :
      Cut source before (text ++ after) tokens → (∀ fault, ¬ Stuck fault (text ++ after)) →
      Lexeme text kind value → Longest text after →
      Cut source (before ++ text) after
        (tokens ++ [⟨kind, value, ⟨.behind before, .behind (before ++ text)⟩⟩])

theorem Cut.append_eq {source before after : List Char} {tokens : List Token}
    (h : Cut source before after tokens) : before ++ after = source := by
  induction h with
  | start => rfl
  | gap _ _ _ _ ih => rw [List.append_assoc, ih]
  | token _ _ _ _ ih => rw [List.append_assoc, ih]

theorem TokenKind.ofWord?_ne_eof (word : String) : TokenKind.ofWord? word ≠ some .eof := by
  unfold TokenKind.ofWord?
  split <;> simp

theorem Lexeme.kind_ne_eof {text : List Char} {kind : TokenKind} {value : String}
    (h : Lexeme text kind value) : kind ≠ .eof := by
  cases h with
  | @word c cs hc hcs =>
    unfold Piece.wordKind
    have hne := TokenKind.ofWord?_ne_eof (Text.fold (String.ofList (c :: cs)))
    cases hw : TokenKind.ofWord? (Text.fold (String.ofList (c :: cs))) with
    | none => simp
    | some kind => exact fun h => hne (by rw [hw]; exact congrArg some h)
  | mark hm =>
    have hall : ∀ m ∈ TokenKind.marks, m.2 ≠ .eof := by decide
    exact hall _ hm
  | _ => simp

theorem Cut.kind_ne_eof {source before after : List Char} {tokens : List Token}
    (h : Cut source before after tokens) : ∀ t ∈ tokens, t.kind ≠ .eof := by
  induction h with
  | start => simp
  | gap _ _ _ _ ih => exact ih
  | token _ _ hl _ ih =>
    intro t ht
    rcases List.mem_append.mp ht with ht | ht
    · exact ih t ht
    · obtain rfl := List.mem_singleton.mp ht
      exact hl.kind_ne_eof

namespace Token

variable {c : Char} {rest cs after before source : List Char} {p : Position} {tokens : List Token}

theorem readFrom_nil (p : Position) : readFrom p [] = .ok [eof p] := by
  unfold readFrom
  rfl

theorem readFrom_of_error {fault : Fault} (h : Piece.read c rest = .error fault) :
    readFrom p (c :: rest) = .error ⟨fault, p⟩ := by
  unfold readFrom
  rw [h]

theorem readFrom_of_ok {piece : Piece} (h : Piece.read c (cs ++ after) = .ok piece)
    (hn : piece.more = cs.length) :
    readFrom p (c :: (cs ++ after)) =
      (readFrom (p.after (c :: cs)) after).map
        (piece.tokens ⟨p, p.after (c :: cs)⟩ ++ ·) := by
  rw [readFrom.eq_def]
  simp only [h, hn, List.take_left, List.drop_left]
  cases readFrom (p.after (c :: cs)) after <;> rfl

/-- How reading goes on from a place: through the rest of the source, or up to a place where it is
stuck. -/
def Goes (source before after : List Char) (tokens : List Token) : Prop :=
  (∃ more, readFrom (.behind before) after = .ok (more ++ [eof (.behind source)]) ∧
      Cut source source [] (tokens ++ more)) ∨
    ∃ d before' after' tokens', readFrom (.behind before) after = .error d ∧
      Cut source before' after' tokens' ∧ d.position = .behind before' ∧ Stuck d.fault after'

theorem goes_of_ok {piece : Piece} (h : Piece.read c (cs ++ after) = .ok piece)
    (hn : piece.more = cs.length)
    (hgoes : Goes source (before ++ c :: cs) after
      (tokens ++ piece.tokens ⟨.behind before, .behind (before ++ c :: cs)⟩)) :
    Goes source before (c :: (cs ++ after)) tokens := by
  have hafter : (Position.behind before).after (c :: cs) = .behind (before ++ c :: cs) := by
    rw [← Position.after_start, ← Position.after_start, Position.after_append]
  unfold Goes
  rw [readFrom_of_ok h hn, hafter]
  rcases hgoes with ⟨more, hread, hcut⟩ | ⟨d, before', after', tokens', hread, hstuck⟩
  · rw [hread]
    exact .inl ⟨_ ++ more, by rw [List.append_assoc]; rfl, by rwa [← List.append_assoc]⟩
  · rw [hread]
    exact .inr ⟨d, before', after', tokens', rfl, hstuck⟩

theorem goes_of_cut (h : Cut source before after tokens) : Goes source before after tokens := by
  induction hn : after.length using Nat.strong_induction_on generalizing before after tokens with
  | _ n ih =>
    cases after with
    | nil =>
      have hsource : before = source := by simpa using h.append_eq
      subst hsource
      exact .inl ⟨[], readFrom_nil _, by simpa using h⟩
    | cons c rest =>
      have htaken := Piece.taken c rest
      generalize hr : Piece.read c rest = r at htaken
      cases htaken with
      | @gap cs after hg =>
        have hcut := Cut.gap h (fun _ => Piece.not_stuck hr) hg (Piece.longest_of_read hr rfl)
        refine goes_of_ok hr rfl (ih after.length ?_ (by simpa [Piece.tokens] using hcut) rfl)
        simp only [← hn, List.length_cons, List.length_append]
        omega
      | @token cs after kind value hl =>
        have hcut := Cut.token h (fun _ => Piece.not_stuck hr) hl (Piece.longest_of_read hr rfl)
        refine goes_of_ok hr rfl (ih after.length ?_ hcut rfl)
        simp only [← hn, List.length_cons, List.length_append]
        omega
      | @stuck rest fault hs =>
        exact .inr ⟨_, before, c :: rest, tokens, readFrom_of_error hr, h, rfl, hs⟩

/-- The tokens of a source are those of its pieces, in their order and at their places, and the
end of the text. Where there are none, the source is refused at the first place that is stuck. -/
theorem read_partitions (source : String) :
    (∃ tokens, read source = .ok (tokens ++ [eof (.behind source.toList)]) ∧
      Cut source.toList source.toList [] tokens ∧ ∀ t ∈ tokens, t.kind ≠ .eof) ∨
    ∃ d before after tokens, read source = .error d ∧ source.toList = before ++ after ∧
      Cut source.toList before after tokens ∧ d.position = .behind before ∧
      Stuck d.fault after := by
  have hstart : Cut source.toList [] source.toList [] := .start
  rcases goes_of_cut hstart with
    ⟨tokens, hread, hcut⟩ | ⟨d, before, after, tokens, hread, hcut, hp, hs⟩
  · exact .inl ⟨tokens, hread, hcut, hcut.kind_ne_eof⟩
  · exact .inr ⟨d, before, after, tokens, hread, hcut.append_eq.symm, hcut, hp, hs⟩

end Token

end Primer
