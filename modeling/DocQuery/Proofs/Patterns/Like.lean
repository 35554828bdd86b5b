import DocQuery.LikePattern
import DocQuery.Regex
import Mathlib.Data.List.Infix

/-!
# LIKE by search

`Like` says which texts a LIKE pattern stands for, on the pattern as it is
written. The main result is that the store finds the regular expression of a
pattern in exactly these texts, as long as they are single lines: a search knows
no ends but the anchors, so what the pattern leaves open at its ends is left open
by dropping an anchor, and the wildcards in between become items of their own.
These items stop at a line break: `LineLike` says which texts of several lines
are found, and `found_iff_lineLike` that they are some of those that the pattern
stands for.
-/

namespace DocQuery

/-- A text that the pattern stands for: `%` for any run of characters, `_` for
one, and any other character for itself. -/
inductive Like : List Char → List Char → Prop
  | nil : Like [] []
  | run {pattern text : List Char} (skipped : List Char) (rest : Like pattern text) :
      Like ('%' :: pattern) (skipped ++ text)
  | one {pattern text : List Char} (c : Char) (rest : Like pattern text) :
      Like ('_' :: pattern) (c :: text)
  | char {pattern text : List Char} {c : Char} (notRun : c ≠ '%') (notOne : c ≠ '_')
      (rest : Like pattern text) : Like (c :: pattern) (c :: text)

namespace Like

variable {p q s : List Char}

theorem nil_iff : Like [] s ↔ s = [] := by
  constructor
  · rintro ⟨⟩
    rfl
  · rintro rfl
    exact .nil

theorem run_iff : Like ('%' :: p) s ↔ ∃ skipped text, s = skipped ++ text ∧ Like p text := by
  constructor
  · intro h
    cases h with
    | run skipped rest => exact ⟨skipped, _, rfl, rest⟩
    | char notRun => exact absurd rfl notRun
  · rintro ⟨skipped, text, rfl, rest⟩
    exact .run skipped rest

theorem one_iff : Like ('_' :: p) s ↔ ∃ c text, s = c :: text ∧ Like p text := by
  constructor
  · intro h
    cases h with
    | one c rest => exact ⟨c, _, rfl, rest⟩
    | char _ notOne => exact absurd rfl notOne
  · rintro ⟨c, text, rfl, rest⟩
    exact .one c rest

theorem char_iff {c : Char} (hr : c ≠ '%') (ho : c ≠ '_') :
    Like (c :: p) s ↔ ∃ text, s = c :: text ∧ Like p text := by
  constructor
  · intro h
    cases h with
    | run => exact absurd rfl hr
    | one => exact absurd rfl ho
    | char _ _ rest => exact ⟨_, rfl, rest⟩
  · rintro ⟨text, rfl, rest⟩
    exact .char hr ho rest

theorem append {a b : List Char} (hp : Like p a) (hq : Like q b) : Like (p ++ q) (a ++ b) := by
  induction hp with
  | nil => exact hq
  | run skipped _ ih =>
      rw [List.cons_append, List.append_assoc]
      exact .run skipped ih
  | one c _ ih => exact .one c ih
  | char hr ho _ ih => exact .char hr ho ih

theorem append_iff : Like (p ++ q) s ↔ ∃ a b, s = a ++ b ∧ Like p a ∧ Like q b := by
  constructor
  · intro h
    induction p generalizing s with
    | nil => exact ⟨[], s, rfl, .nil, h⟩
    | cons c p ih =>
        rw [List.cons_append] at h
        cases h with
        | run skipped rest =>
            obtain ⟨a, b, rfl, ha, hb⟩ := ih rest
            exact ⟨skipped ++ a, b, (List.append_assoc ..).symm, .run skipped ha, hb⟩
        | one c rest =>
            obtain ⟨a, b, rfl, ha, hb⟩ := ih rest
            exact ⟨c :: a, b, rfl, .one c ha, hb⟩
        | char hr ho rest =>
            obtain ⟨a, b, rfl, ha, hb⟩ := ih rest
            exact ⟨c :: a, b, rfl, .char hr ho ha, hb⟩
  · rintro ⟨a, b, rfl, ha, hb⟩
    exact ha.append hb

/-- Trying a text against a pattern. Only a run leaves a choice: what follows it
has to stand for one of the ends of the text. -/
instance decidable : (pattern text : List Char) → Decidable (Like pattern text)
  | [], text => decidable_of_iff (text = []) nil_iff.symm
  | c :: pattern, text =>
    have : DecidablePred (Like pattern) := decidable pattern
    if hrun : c = '%' then
      decidable_of_iff (∃ rest ∈ text.tails, Like pattern rest) <| by
        subst hrun
        simp only [run_iff, List.mem_tails]
        constructor
        · rintro ⟨rest, ⟨skipped, rfl⟩, h⟩
          exact ⟨skipped, rest, rfl, h⟩
        · rintro ⟨skipped, rest, rfl, h⟩
          exact ⟨rest, ⟨skipped, rfl⟩, h⟩
    else if hone : c = '_' then
      decidable_of_iff (text ≠ [] ∧ Like pattern text.tail) <| by
        subst hone
        cases text <;> simp [one_iff]
    else
      decidable_of_iff (text.head? = some c ∧ Like pattern text.tail) <| by
        cases text <;> simp [char_iff hrun hone, eq_comm]

example : Like "%a._%".toList "xa.bc".toList := by decide
example : ¬ Like "%a._%".toList "xa.".toList := by decide

/-- One end of a pattern, closed or open by a `%`. -/
theorem end_iff {closed : Bool} :
    Like (if closed then [] else ['%']) s ↔ (closed = true → s = []) := by
  cases closed with
  | true => simp [nil_iff]
  | false =>
      have hall : Like ['%'] s := by simpa using Like.run s .nil
      simp [hall]

end Like

/-- A text that the pattern stands for with no line break under a wildcard. -/
inductive LineLike : List Char → List Char → Prop
  | nil : LineLike [] []
  | run {pattern text skipped : List Char} (line : '\n' ∉ skipped) (rest : LineLike pattern text) :
      LineLike ('%' :: pattern) (skipped ++ text)
  | one {pattern text : List Char} {c : Char} (line : c ≠ '\n') (rest : LineLike pattern text) :
      LineLike ('_' :: pattern) (c :: text)
  | char {pattern text : List Char} {c : Char} (notRun : c ≠ '%') (notOne : c ≠ '_')
      (rest : LineLike pattern text) : LineLike (c :: pattern) (c :: text)

theorem LineLike.like {p s : List Char} (h : LineLike p s) : Like p s := by
  induction h with
  | nil => exact .nil
  | run _ _ ih => exact .run _ ih
  | one _ _ ih => exact .one _ ih
  | char notRun notOne _ ih => exact .char notRun notOne ih

/-- The line breaks of the text are those that the pattern is written with. -/
theorem LineLike.count_newline {p s : List Char} (h : LineLike p s) :
    s.count '\n' = p.count '\n' := by
  induction h with
  | nil => rfl
  | run line _ ih => rw [List.count_append, List.count_eq_zero_of_not_mem line, ih]; simp
  | one line _ ih => rw [List.count_cons_of_ne line, ih]; simp
  | char _ _ _ ih => rw [List.count_cons, List.count_cons, ih]

/-- No wildcard meets a line break where there is none of the one or of the other. -/
theorem Like.lineLike {p s : List Char} (h : Like p s)
    (hline : '\n' ∈ s → '%' ∉ p ∧ '_' ∉ p) : LineLike p s := by
  induction h with
  | nil => exact .nil
  | run skipped _ ih =>
      have hnone : '\n' ∉ skipped ++ _ := fun hmem => (hline hmem).1 List.mem_cons_self
      rw [List.mem_append, not_or] at hnone
      exact .run hnone.1 (ih fun hmem => absurd hmem hnone.2)
  | one c _ ih =>
      have hnone : '\n' ∉ c :: _ := fun hmem => (hline hmem).2 List.mem_cons_self
      rw [List.mem_cons, not_or] at hnone
      exact .one (Ne.symm hnone.1) (ih fun hmem => absurd hmem hnone.2)
  | char notRun notOne _ ih =>
      refine .char notRun notOne (ih fun hmem => ?_)
      obtain ⟨hrun, hone⟩ := hline (List.mem_cons_of_mem _ hmem)
      exact ⟨fun h => hrun (List.mem_cons_of_mem _ h), fun h => hone (List.mem_cons_of_mem _ h)⟩

/-! ## The items of a pattern -/

namespace Regex

variable {before taken after : List Char}

theorem takes_append {r r' : Regex} :
    (r ++ r').Takes before taken after ↔
      ∃ first others, taken = first ++ others ∧ r.Takes before first (others ++ after) ∧
        r'.Takes (before ++ first) others after := by
  induction r generalizing before taken with
  | nil =>
      constructor
      · intro h
        exact ⟨[], taken, rfl, rfl, by simpa using h⟩
      · rintro ⟨_, others, rfl, rfl, h⟩
        simpa using h
  | cons item r ih =>
      simp only [List.cons_append, Takes, ih]
      constructor
      · rintro ⟨x, _, rfl, hx, y, z, rfl, hy, hz⟩
        refine ⟨x ++ y, z, (List.append_assoc ..).symm, ⟨x, y, rfl, ?_, hy⟩, ?_⟩
        · rwa [← List.append_assoc]
        · rwa [← List.append_assoc]
      · rintro ⟨_, z, rfl, ⟨x, y, rfl, hx, hy⟩, hz⟩
        refine ⟨x, y ++ z, List.append_assoc .., ?_, y, z, rfl, hy, ?_⟩
        · rwa [List.append_assoc]
        · rwa [List.append_assoc]

/-- Anchors take nothing. They only look at what is around the match. -/
theorem takes_anchored_iff {fromStart toEnd : Bool} {r : Regex} :
    Takes before taken after
        ((if fromStart then [.start] else []) ++ r ++ (if toEnd then [.stop] else [])) ↔
      (fromStart = true → before = []) ∧ (toEnd = true → after = []) ∧
        r.Takes before taken after := by
  have hstart : ∀ {taken after : List Char},
      Takes before taken after (if fromStart then [.start] else []) ↔
        taken = [] ∧ (fromStart = true → before = []) := by
    cases fromStart <;> simp [Takes, Item.Takes, and_comm]
  have hstop : ∀ {before taken : List Char},
      Takes before taken after (if toEnd then [.stop] else []) ↔
        taken = [] ∧ (toEnd = true → after = []) := by
    cases toEnd <;> simp [Takes, Item.Takes]
  simp only [takes_append, hstart, hstop]
  constructor
  · rintro ⟨_, _, rfl, ⟨_, taken, rfl, ⟨rfl, hbefore⟩, h⟩, rfl, hafter⟩
    exact ⟨hbefore, hafter, by simpa using h⟩
  · rintro ⟨hbefore, hafter, h⟩
    exact ⟨taken, [], by simp, ⟨[], taken, rfl, ⟨rfl, hbefore⟩, by simpa using h⟩, rfl, hafter⟩

end Regex

namespace LikePattern

def Piece.item : Piece → Regex.Item
  | .run => .run
  | .one => .any
  | .char c => .char c

/-- The regular expression of a pattern in items. -/
def items (p : LikePattern) : Regex :=
  (if p.fromStart then [.start] else []) ++ p.pieces.map Piece.item ++
    (if p.toEnd then [.stop] else [])

/-! ## Reading the regular expression back -/

theorem isEscapable_of_isMeta {c : Char} (h : isMeta c = true) : Regex.isEscapable c = true := by
  simp only [isMeta, List.contains_iff_mem, List.mem_cons, List.not_mem_nil, or_false] at h
  rcases h with rfl | rfl | rfl | rfl | rfl | rfl | rfl | rfl | rfl | rfl | rfl | rfl | rfl |
    rfl | rfl | rfl | rfl | rfl <;> decide

theorem isMeta_of_isOperator {c : Char} (h : Regex.isOperator c = true) : isMeta c = true := by
  simp only [Regex.isOperator, List.contains_iff_mem, List.mem_cons, List.not_mem_nil,
    or_false] at h
  rcases h with rfl | rfl | rfl | rfl | rfl | rfl | rfl | rfl | rfl | rfl | rfl | rfl <;> decide

theorem ofChars?_of_isMeta {c : Char} (h : isMeta c = true) (rest : List Char) :
    Regex.ofChars? ('\\' :: c :: rest) = (Regex.ofChars? rest).map (.char c :: ·) := by
  rw [Regex.ofChars?, if_pos (isEscapable_of_isMeta h)]

theorem ofChars?_of_not_isMeta {c : Char} (h : isMeta c = false) (rest : List Char) :
    Regex.ofChars? (c :: rest) = (Regex.ofChars? rest).map (.char c :: ·) := by
  have hop : Regex.isOperator c = false := by
    cases hop : Regex.isOperator c with
    | false => rfl
    | true =>
        rw [isMeta_of_isOperator hop] at h
        cases h
  rw [Regex.ofChars?.eq_def]
  split
  case h_7 heq =>
    cases heq
    simp [hop]
  case h_1 heq => cases heq
  all_goals
    rename_i heq
    obtain ⟨rfl, -⟩ := List.cons.inj heq
    cases h

/-- No piece is written with a `*` in front, so a `.` is never read as a run. -/
theorem head?_regex_ne_star (pieces : List Piece) (toEnd : Bool) :
    (pieces.flatMap Piece.regex ++ (if toEnd then ['$'] else [])).head? ≠ some '*' := by
  cases pieces with
  | nil => cases toEnd <;> decide
  | cons piece pieces =>
      rw [List.flatMap_cons, List.append_assoc]
      cases piece with
      | run | one => simp [Piece.regex]
      | char c =>
          by_cases h : isMeta c = true
          · simp [Piece.regex, h]
          · rw [Piece.regex, if_neg h, List.singleton_append, List.head?_cons]
            intro heq
            obtain rfl := Option.some.inj heq
            exact h rfl

theorem ofChars?_pieces (pieces : List Piece) (toEnd : Bool) :
    Regex.ofChars? (pieces.flatMap Piece.regex ++ (if toEnd then ['$'] else [])) =
      some (pieces.map Piece.item ++ (if toEnd then [.stop] else [])) := by
  induction pieces with
  | nil => cases toEnd <;> rfl
  | cons piece pieces ih =>
      rw [List.flatMap_cons, List.append_assoc, List.map_cons, List.cons_append]
      cases piece with
      | run => simp [Piece.regex, Piece.item, Regex.ofChars?, ih]
      | one =>
          have hstar := head?_regex_ne_star pieces toEnd
          rw [Piece.regex, List.singleton_append, Regex.ofChars?, ih]
          · rfl
          · rintro rest heq
            rw [heq] at hstar
            exact hstar rfl
      | char c =>
          by_cases h : isMeta c = true
          · rw [Piece.regex, if_pos h, List.cons_append, List.singleton_append,
              ofChars?_of_isMeta h, ih]
            rfl
          · rw [Piece.regex, if_neg h, List.singleton_append,
              ofChars?_of_not_isMeta (by simpa using h), ih]
            rfl

theorem ofText?_regex {p : LikePattern} (h : p.ignoreCase = false) :
    Regex.ofText? p.regex = some p.items := by
  rw [Regex.ofText?, regex, String.toList_ofList, items, h]
  cases p.fromStart with
  | false => simpa using ofChars?_pieces p.pieces p.toEnd
  | true => simpa [Regex.ofChars?] using ofChars?_pieces p.pieces p.toEnd

/-! ## Pieces and texts -/

/-- The pieces take what the characters that they are read from stand for, each
wildcard on one line. -/
theorem takes_pieces_iff_lineLike {body before taken after : List Char} :
    Regex.Takes before taken after (body.map fun c => (Piece.ofChar c).item) ↔
      LineLike body taken := by
  induction body generalizing before taken with
  | nil =>
      rw [List.map_nil, Regex.Takes]
      constructor
      · rintro rfl
        exact .nil
      · rintro ⟨⟩
        rfl
  | cons c body ih =>
      rw [List.map_cons, Regex.Takes]
      simp only [ih]
      constructor
      · rintro ⟨first, others, rfl, hitem, hrest⟩
        by_cases hrun : c = '%'
        · subst hrun
          exact .run hitem hrest
        by_cases hone : c = '_'
        · subst hone
          obtain ⟨c, hline, rfl⟩ := hitem
          exact .one hline hrest
        · have heq : (Piece.ofChar c).item = .char c := by
            simp [Piece.ofChar, Piece.item]
          rw [heq] at hitem
          obtain rfl : first = [c] := hitem
          exact .char hrun hone hrest
      · intro h
        cases h with
        | run line rest => exact ⟨_, _, rfl, line, rest⟩
        | one line rest => exact ⟨[_], _, rfl, ⟨_, line, rfl⟩, rest⟩
        | char notRun notOne rest =>
            refine ⟨[c], _, rfl, ?_, rest⟩
            simp [Piece.ofChar, Piece.item, Regex.Item.Takes]

/-- On one line the pieces take what the characters that they are read from
stand for. -/
theorem takes_pieces_iff {body before taken after : List Char} (h : '\n' ∉ taken) :
    Regex.Takes before taken after (body.map fun c => (Piece.ofChar c).item) ↔ Like body taken := by
  rw [takes_pieces_iff_lineLike]
  exact ⟨LineLike.like, fun hlike => hlike.lineLike fun hmem => absurd hmem h⟩

/-- A `%` that ends the characters is taken off. -/
theorem eq_dropLast_append {cs : List Char} (h : cs.getLast? = some '%') :
    cs = cs.dropLast ++ ['%'] := by
  obtain ⟨body, rfl⟩ := List.getLast?_eq_some_iff.mp h
  rw [List.dropLast_concat]

/-- What a pattern is made of: a body of pieces between its two ends. -/
theorem exists_body (pattern : String) (ignoreCase : Bool) :
    ∃ body, (read pattern ignoreCase).pieces = body.map Piece.ofChar ∧
      pattern.toList = (if (read pattern ignoreCase).fromStart then [] else ['%']) ++ body ++
        (if (read pattern ignoreCase).toEnd then [] else ['%']) := by
  rw [read]
  generalize pattern.toList = cs
  split
  rename_i body fromStart hstart
  have hcs : cs = (if fromStart then [] else ['%']) ++ body := by
    split at hstart <;> cases hstart <;> rfl
  by_cases hstop : body.getLast? = some '%'
  · refine ⟨body.dropLast, by simp [hstop], ?_⟩
    simp only [hstop, if_true, Bool.false_eq_true, if_false, List.append_assoc]
    rw [← eq_dropLast_append hstop, hcs]
  · exact ⟨body, by simp [hstop], by simp [hstop, hcs]⟩

/-- On one line, the regular expression of a pattern is found in the texts that
the pattern stands for. -/
theorem found_iff_like (pattern : String) :
    ∃ r, Regex.ofText? (read pattern false).regex = some r ∧
      ∀ text : String, '\n' ∉ text.toList →
        (r.FoundIn text ↔ Like pattern.toList text.toList) := by
  obtain ⟨body, hpieces, hpattern⟩ := exists_body pattern false
  refine ⟨(read pattern false).items, ofText?_regex rfl, fun text hline => ?_⟩
  rw [Regex.FoundIn, items, hpieces, List.map_map, hpattern]
  simp only [Regex.takes_anchored_iff, Like.append_iff, Like.end_iff]
  constructor
  · rintro ⟨before, taken, after, heq, hbefore, hafter, ht⟩
    have htaken : '\n' ∉ taken := fun h => hline (by simp [heq, h])
    exact ⟨before ++ taken, after, heq,
      ⟨before, taken, rfl, hbefore, (takes_pieces_iff htaken).mp ht⟩, hafter⟩
  · rintro ⟨_, after, heq, ⟨before, taken, rfl, hbefore, ht⟩, hafter⟩
    have htaken : '\n' ∉ taken := fun h => hline (by simp [heq, h])
    exact ⟨before, taken, after, heq, hbefore, hafter, (takes_pieces_iff htaken).mpr ht⟩

theorem found_iff_like_of_dot :
    ∃ r, Regex.ofText? (read "%a._%" false).regex = some r ∧
      ('\n' ∉ "xa.bc".toList ∧ r.FoundIn "xa.bc") ∧
      ('\n' ∉ "xaabc".toList ∧ ¬ r.FoundIn "xaabc") := by
  obtain ⟨r, hr, hfound⟩ := found_iff_like "%a._%"
  have hline : '\n' ∉ "xa.bc".toList ∧ '\n' ∉ "xaabc".toList := by decide
  refine ⟨r, hr, ⟨hline.1, ?_⟩, hline.2, ?_⟩
  · rw [hfound _ hline.1]
    decide
  · rw [hfound _ hline.2]
    decide

/-! ## Several lines -/

/-- The pieces are searched for on their own lines, between what the ends of the
pattern leave open. -/
theorem foundIn_items_iff {p : LikePattern} {body : List Char}
    (h : p.pieces = body.map Piece.ofChar) {text : String} :
    p.items.FoundIn text ↔ ∃ before taken after, text.toList = before ++ taken ++ after ∧
      (p.fromStart = true → before = []) ∧ (p.toEnd = true → after = []) ∧
        LineLike body taken := by
  rw [Regex.FoundIn, items, h, List.map_map]
  simp only [Regex.takes_anchored_iff, Function.comp_def, takes_pieces_iff_lineLike]

/-- The search of a pattern in any text, line breaks included: what a `%` at an end
of the pattern leaves open may hold them, and what a wildcard in between stands for
may not. So a search finds nothing but what the pattern stands for, and it finds
all of that if there are wildcards at the ends only. -/
theorem found_iff_lineLike (pattern : String) :
    ∃ r body, Regex.ofText? (read pattern false).regex = some r ∧
      pattern.toList = (if (read pattern false).fromStart then [] else ['%']) ++ body ++
        (if (read pattern false).toEnd then [] else ['%']) ∧
      ∀ text : String,
        (r.FoundIn text ↔ ∃ before taken after, text.toList = before ++ taken ++ after ∧
          ((read pattern false).fromStart = true → before = []) ∧
            ((read pattern false).toEnd = true → after = []) ∧ LineLike body taken) ∧
        (r.FoundIn text → Like pattern.toList text.toList) ∧
        ('%' ∉ body → '_' ∉ body → Like pattern.toList text.toList → r.FoundIn text) := by
  obtain ⟨body, hpieces, hpattern⟩ := exists_body pattern false
  refine ⟨(read pattern false).items, body, ofText?_regex rfl, hpattern, fun text => ?_⟩
  have hfound : (read pattern false).items.FoundIn text ↔ _ := foundIn_items_iff hpieces
  refine ⟨hfound, fun h => ?_, fun hrun hone h => hfound.mpr ?_⟩
  · obtain ⟨before, taken, after, htext, hbefore, hafter, hbody⟩ := hfound.mp h
    rw [hpattern, htext]
    exact ((Like.end_iff.mpr hbefore).append hbody.like).append (Like.end_iff.mpr hafter)
  · rw [hpattern] at h
    obtain ⟨_, after, htext, h, hafter⟩ := Like.append_iff.mp h
    obtain ⟨before, taken, rfl, hbefore, hbody⟩ := Like.append_iff.mp h
    exact ⟨before, taken, after, htext, Like.end_iff.mp hbefore, Like.end_iff.mp hafter,
      hbody.lineLike fun _ => ⟨hrun, hone⟩⟩

/-- The ends of the pattern are open to the lines before and after. -/
theorem found_iff_lineLike_of_lines :
    let text := "sun\nmoon\nstars"
    ∃ r, Regex.ofText? (read "%moon%" false).regex = some r ∧
      Like "%moon%".toList text.toList ∧ r.FoundIn text := by
  intro text
  obtain ⟨r, body, hr, hpattern, hfound⟩ := found_iff_lineLike "%moon%"
  have hopen : (read "%moon%" false).fromStart = false ∧ (read "%moon%" false).toEnd = false := by
    decide
  rw [hopen.1, hopen.2] at hpattern
  have hbody : "moon".toList ++ ['%'] = body ++ ['%'] := by simpa using hpattern
  obtain rfl := List.append_cancel_right hbody
  have hlike : Like "%moon%".toList text.toList := by decide
  exact ⟨r, hr, hlike, (hfound text).2.2 (by decide) (by decide) hlike⟩

/-- A run inside a pattern stands for a line break and is not found in its place. -/
theorem not_found_of_line_break :
    Like "a%b".toList "a\nb".toList ∧
      ∃ r, Regex.ofText? (read "a%b" false).regex = some r ∧ ¬ r.FoundIn "a\nb" := by
  refine ⟨by decide, _, ofText?_regex rfl, ?_⟩
  rw [foundIn_items_iff (show _ = "a%b".toList.map Piece.ofChar from rfl)]
  rintro ⟨before, taken, after, htext, hbefore, hafter, htaken⟩
  obtain rfl := hbefore rfl
  obtain rfl := hafter rfl
  obtain rfl : "a\nb".toList = taken := by simpa using htext
  exact absurd htaken.count_newline (by decide)

end LikePattern

end DocQuery
