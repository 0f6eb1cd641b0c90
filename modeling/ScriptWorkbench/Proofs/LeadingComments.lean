/-
A comment in front of a source.

A comment between `/*` and `*/` belongs to the token behind it: the scanner looks for that token at once and
passes over nothing else but further comments of this kind (`scan_behind_comment`).
-/
import ScriptWorkbench.Proofs.Tiling

namespace ScriptWorkbench.Token

open List

/-! ## What follows the comment -/

/-- The text begins with a token, or with a comment glued to one: with no blank and no line comment. -/
def startsAtOnce : List Char → Bool
  | [] => false
  | c :: cs => !isGap c && !startsLineComment (c :: cs)

theorem not_startsAtOnce_mark {c : Char} {mark : List Char} (h : c :: mark ∈ lineMarks)
    (rest : List Char) : ¬startsAtOnce (c :: mark ++ rest) = true := by
  rw [cons_append, startsAtOnce, startsLineComment_iff.2 ⟨mark, rest, h, rfl⟩]
  simp

theorem Loose.eq_nil_of_startsAtOnce {gap rest : List Char} (h : Loose gap)
    (hfront : startsAtOnce (gap ++ rest) = true) : gap = [] := by
  cases h with
  | nothing => rfl
  | blank hc _ =>
    rw [cons_append, startsAtOnce, hc] at hfront
    cases hfront
  | comment hmark _ _ =>
    rw [append_assoc] at hfront
    exact absurd hfront (not_startsAtOnce_mark hmark _)

theorem not_startsAtOnce_unended {tail : List Char} (h : Unended tail) : ¬startsAtOnce tail = true := by
  cases h with
  | nothing => decide
  | comment hmark _ => exact not_startsAtOnce_mark hmark _

theorem Tiles.behindComment {body cs : List Char} {ws : List (Kind × String)} (h : Tiles cs ws)
    (hbody : ¬['*', '/'] <:+: body) (hfront : startsAtOnce cs = true) :
    Tiles ('/' :: '*' :: (body ++ '*' :: '/' :: cs)) ws := by
  cases h with
  | done hgap htail =>
    obtain rfl := hgap.eq_nil_of_startsAtOnce hfront
    exact absurd hfront (not_startsAtOnce_unended htail)
  | token hgap hglued htext hslash hrest =>
    obtain rfl := hgap.eq_nil_of_startsAtOnce hfront
    have hpiece := Tiles.token .nothing (.comment hbody hglued) htext
      (fun hone => ⟨(hslash hone).1, by rintro ⟨⟩⟩) hrest
    simpa using hpiece

theorem lexeme_of_blank_or_hash {d : Char} (h : isGap d = true ∨ d = '#') (p : Position)
    (cs : List Char) : lexeme p d cs = .error (.unexpected d p) := by
  obtain (((rfl | rfl) | rfl) | rfl) | rfl := h.imp_left eq_of_isGap <;> cases cs <;> rfl

/-! ## The source behind the comment -/

def commented (body source : String) : String := "/*" ++ body ++ "*/" ++ source

def behindComment (body : String) : Position :=
  Position.start.after (widened ('/' :: '*' :: (body.toList ++ ['*', '/'])))

theorem toList_commented (body source : String) :
    (commented body source).toList = '/' :: '*' :: (body.toList ++ '*' :: '/' :: source.toList) := by
  simp [commented]

theorem scan_commented {body : String} (hbody : ¬['*', '/'] <:+: body.toList) (source : String) :
    scan (commented body source) = (nextToken (behindComment body) source.toList).bind fun t =>
      (scanFrom t.position t.rest).map (t.value :: ·) := by
  have hglued := nextToken_glued (.comment hbody .nothing) .start source.toList
  rw [cons_append, cons_append, append_assoc] at hglued
  rw [scan, toList_commented, scanFrom_token rfl rfl]
  exact congrArg (Except.bind · _) hglued

theorem scan_commented_refused {body source : String} (hbody : ¬['*', '/'] <:+: body.toList) {d : Char}
    {rest : List Char} (hsource : source.toList = d :: rest) (hd : isGap d = true ∨ d = '#') :
    scan (commented body source) = .error (.unexpected d (behindComment body)) := by
  have hne : d = '/' → rest.head? ≠ some '*' := by
    rintro rfl
    exact absurd hd (by decide)
  rw [scan_commented hbody, hsource, nextToken_lexeme hne, lexeme_of_blank_or_hash hd]
  rfl

theorem scan_commented_slashes {body source : String} (hbody : ¬['*', '/'] <:+: body.toList)
    {rest : List Char} (hsource : source.toList = '/' :: '/' :: rest) :
    scan (commented body source) = (scanFrom ((behindComment body).advance 1) ('/' :: rest)).map
      (⟨.slash, "/", behindComment body⟩ :: ·) := by
  rw [scan_commented hbody, hsource, nextToken_lexeme (by simp)]
  rfl

/-- **A source behind a comment.** If it begins with a token, or with a comment of the same kind, then the
tokens are the same in kind and value. Else the source is empty and the scanner runs off; or it begins with a
blank or a hash, which is refused; or with a line comment after two slashes, the first of which becomes a
token, and what stands behind it is scanned as it is. -/
theorem scan_behind_comment (body source : String) (ts : List Token)
    (hbody : ¬['*', '/'] <:+: body.toList) (h : scan source = .ok ts) :
    (startsAtOnce source.toList = true →
        ∃ us, scan (commented body source) = .ok us ∧ us.map content = ts.map content) ∧
      (startsAtOnce source.toList = false →
        source = "" ∧ scan (commented body source) = .error .ranOff ∨
        (∃ d rest, source.toList = d :: rest ∧ (isGap d = true ∨ d = '#') ∧
          scan (commented body source) = .error (.unexpected d (behindComment body))) ∨
        ∃ rest, source.toList = '/' :: '/' :: rest ∧
          scan (commented body source) = (scanFrom ((behindComment body).advance 1) ('/' :: rest)).map
            (⟨.slash, "/", behindComment body⟩ :: ·)) := by
  refine ⟨fun hfront => ?_, fun hfront => ?_⟩
  · have htiles := (tiles_of_scanFrom h).behindComment hbody hfront
    rw [← toList_commented] at htiles
    exact scanFrom_of_tiles htiles .start
  · cases hsource : source.toList with
    | nil =>
      refine .inl ⟨String.toList_eq_nil_iff.1 hsource, ?_⟩
      rw [scan_commented hbody, hsource, nextToken]
      rfl
    | cons d rest =>
      rw [hsource, startsAtOnce] at hfront
      cases hgap : isGap d with
      | true => exact .inr (.inl ⟨d, rest, rfl, .inl hgap, scan_commented_refused hbody hsource (.inl hgap)⟩)
      | false =>
        rw [hgap] at hfront
        obtain ⟨mark, more, hmark, rfl⟩ := startsLineComment_iff.1 (by simpa using hfront)
        obtain heq | heq := mem_lineMarks.1 hmark <;> cases heq
        · exact .inr (.inl ⟨'#', more, rfl, .inr rfl, scan_commented_refused hbody hsource (.inr rfl)⟩)
        · exact .inr (.inr ⟨more, rfl, scan_commented_slashes hbody hsource⟩)

/-- A comment that ends with a star, before a name. -/
theorem scan_behind_comment_name :
    scan "x" = .ok [⟨.identifier, "x", ⟨1, 1⟩⟩, ⟨.endOfInput, "", ⟨1, 2⟩⟩] ∧
      ∃ us, scan (commented " *" "x") = .ok us ∧
        us.map content = [(.identifier, "x"), (.endOfInput, "")] := by
  have hscan : scan "x" = .ok [⟨.identifier, "x", ⟨1, 1⟩⟩, ⟨.endOfInput, "", ⟨1, 2⟩⟩] :=
    eq_ok_of_toOption (by decide +kernel)
  exact ⟨hscan, (scan_behind_comment " *" "x" _ (by decide) hscan).1 (by decide)⟩

/-- A blank behind a comment is refused, and two slashes are read as two tokens. -/
theorem scan_ne_behind_comment :
    (scan " x" = .ok [⟨.identifier, "x", ⟨1, 2⟩⟩, ⟨.endOfInput, "", ⟨1, 3⟩⟩] ∧
        scan (commented " c " " x") = .error (.unexpected ' ' ⟨1, 8⟩)) ∧
      scan "//x" = .ok [⟨.endOfInput, "", ⟨1, 4⟩⟩] ∧
        scan (commented " c " "//x") = .ok [⟨.slash, "/", ⟨1, 8⟩⟩, ⟨.slash, "/", ⟨1, 9⟩⟩,
          ⟨.identifier, "x", ⟨1, 10⟩⟩, ⟨.endOfInput, "", ⟨1, 11⟩⟩] :=
  ⟨⟨eq_ok_of_toOption (by decide +kernel), scan_commented_refused (by decide) rfl (.inl rfl)⟩,
    eq_ok_of_toOption (by decide +kernel), eq_ok_of_toOption (by decide +kernel)⟩

end ScriptWorkbench.Token
