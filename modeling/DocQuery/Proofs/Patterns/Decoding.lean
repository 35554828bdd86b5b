import DocQuery.Proofs.Patterns.Like

/-!
# Patterns read off their regular expressions

Nothing of a pattern is lost when it is rewritten: every character of its body
leaves one item behind, and an anchor that is missing stands for a `%` at that end.
So the pattern and the way it treats case can be read off the text that the store
gets, and no two patterns share one.
-/

namespace DocQuery

/-- The character of a pattern that an item was written for; anchors are written
for none. -/
def Regex.Item.patternChar? : Regex.Item → Option Char
  | .start | .stop => none
  | .any => some '_'
  | .run => some '%'
  | .char c => some c

/-- The pattern that a regular expression was written for. -/
def Regex.pattern (r : Regex) : List Char :=
  (if r.head? = some .start then [] else ['%']) ++ r.filterMap Item.patternChar? ++
    (if r.getLast? = some .stop then [] else ['%'])

namespace LikePattern

/-- The pattern of a text and whether it ignores case. A text that asks for that
opens with a group, which is no item of a pattern. -/
def ofRegex? (text : String) : Option (String × Bool) :=
  match Regex.ofText? text with
  | some r => some (String.ofList r.pattern, false)
  | none =>
    match text.toList with
    | '(' :: '?' :: 'i' :: ')' :: rest =>
      (Regex.ofChars? rest).map fun r => (String.ofList r.pattern, true)
    | _ => none

/-! ## Items -/

theorem patternChar?_ofChar (c : Char) : (Piece.ofChar c).item.patternChar? = some c := by
  by_cases hrun : c = '%'
  · subst hrun
    rfl
  by_cases hone : c = '_'
  · subst hone
    rfl
  · have hchar : Piece.ofChar c = .char c := by simp [Piece.ofChar]
    rw [hchar]
    rfl

theorem filterMap_items {p : LikePattern} {body : List Char}
    (h : p.pieces = body.map Piece.ofChar) :
    p.items.filterMap Regex.Item.patternChar? = body := by
  have hbody : (p.pieces.map Piece.item).filterMap Regex.Item.patternChar? = body := by
    rw [h, List.map_map, List.filterMap_map]
    exact (List.filterMap_congr fun c _ => patternChar?_ofChar c).trans List.filterMap_some
  have hstart : (if p.fromStart then [Regex.Item.start] else []).filterMap
      Regex.Item.patternChar? = [] := by cases p.fromStart <;> rfl
  have hstop : (if p.toEnd then [Regex.Item.stop] else []).filterMap
      Regex.Item.patternChar? = [] := by cases p.toEnd <;> rfl
  rw [items, List.filterMap_append, List.filterMap_append, hbody, hstart, hstop,
    List.nil_append, List.append_nil]

/-- No piece is an anchor. -/
theorem anchor_not_mem_pieces {item : Regex.Item} (h : item = .start ∨ item = .stop)
    (pieces : List Piece) : item ∉ pieces.map Piece.item := by
  rw [List.mem_map]
  rintro ⟨piece, -, rfl⟩
  cases piece <;> rcases h with h | h <;> cases h

theorem head?_items {p : LikePattern} : p.items.head? = some .start ↔ p.fromStart = true := by
  rw [items]
  cases p.fromStart with
  | true => simp
  | false =>
      have hpieces := anchor_not_mem_pieces (Or.inl rfl) p.pieces
      refine iff_of_false (fun h => ?_) Bool.false_ne_true
      have hmem := List.mem_of_head? h
      cases p.toEnd <;> simp [hpieces] at hmem

theorem getLast?_items {p : LikePattern} : p.items.getLast? = some .stop ↔ p.toEnd = true := by
  rw [items]
  cases p.toEnd with
  | true => simp
  | false =>
      have hpieces := anchor_not_mem_pieces (Or.inr rfl) p.pieces
      refine iff_of_false (fun h => ?_) Bool.false_ne_true
      have hmem := List.mem_of_getLast? h
      cases p.fromStart <;> simp [hpieces] at hmem

theorem pattern_items (pattern : String) (ignoreCase : Bool) :
    (read pattern ignoreCase).items.pattern = pattern.toList := by
  obtain ⟨body, hpieces, hpattern⟩ := exists_body pattern ignoreCase
  simp only [Regex.pattern, head?_items, getLast?_items, filterMap_items hpieces]
  exact hpattern.symm

/-! ## Texts -/

/-- Ignoring case puts a flag in front and changes nothing else. -/
theorem regex_ignoreCase (pattern : String) :
    (read pattern true).regex = "(?i)" ++ (read pattern false).regex := by
  have hread : read pattern true = { read pattern false with ignoreCase := true } := rfl
  have hcase : (read pattern false).ignoreCase = false := rfl
  have hflag : "(?i)".toList = ['(', '?', 'i', ')'] := rfl
  rw [← String.toList_inj, String.toList_append, hread]
  simp [regex, hcase, hflag]

theorem ofRegex?_regex (pattern : String) (ignoreCase : Bool) :
    ofRegex? (read pattern ignoreCase).regex = some (pattern, ignoreCase) := by
  have hread : Regex.ofText? (read pattern false).regex = some (read pattern false).items :=
    ofText?_regex rfl
  cases ignoreCase with
  | false =>
      rw [ofRegex?, hread]
      simp [pattern_items]
  | true =>
      have htext : (read pattern true).regex.toList =
          '(' :: '?' :: 'i' :: ')' :: (read pattern false).regex.toList := by
        rw [regex_ignoreCase, String.toList_append]
        rfl
      -- the flag is none of the notation that items are read from
      have hflag : Regex.ofText? (read pattern true).regex = none := by
        rw [Regex.ofText?, htext]
        rfl
      rw [Regex.ofText?] at hread
      rw [ofRegex?, hflag, htext]
      simp [hread, pattern_items]

/-- The regular expression of a pattern tells the pattern and whether case is
ignored, so that no two patterns are rewritten to one, and ignoring case shows in
a flag in front only. -/
theorem regex_tells_pattern :
    (∀ (pattern : String) (ignoreCase : Bool),
      ofRegex? (read pattern ignoreCase).regex = some (pattern, ignoreCase)) ∧
    (∀ (p q : String) (i j : Bool), (read p i).regex = (read q j).regex ↔ p = q ∧ i = j) ∧
    ∀ pattern : String, (read pattern true).regex = "(?i)" ++ (read pattern false).regex := by
  refine ⟨ofRegex?_regex, fun p q i j => ⟨fun h => ?_, ?_⟩, regex_ignoreCase⟩
  · have hdecoded := congrArg ofRegex? h
    rw [ofRegex?_regex, ofRegex?_regex] at hdecoded
    simpa using hdecoded
  · rintro ⟨rfl, rfl⟩
    rfl

example : ofRegex? "(?i)^.\\*.*" = some ("_*%%", true) := by decide +kernel
example : ofRegex? "$" = some ("%", false) ∧ ofRegex? "" = some ("%%", false) := by decide +kernel

end LikePattern

end DocQuery
