import Engramia.Library.JsonText

/-!
What a scanner takes off a text is a part of it that decodes by itself, and before any other
rest. Only a number depends on what comes next, as it might go on, so the law asks that the
rest ends it. A text contains an object exactly when the decoder finds one at a brace.
-/
namespace Engramia.Library.JsonText

section Frames
variable {text rest rest' : List Char}

/-- A number could go on with this character. -/
def isNumeral (c : Char) : Bool :=
  c.isDigit || c = '+' || c = '-' || c = '.' || c = 'e' || c = 'E'

/-- No number goes on with the text. -/
def Ends (text : List Char) : Prop := ∀ c ∈ text.head?, isNumeral c = false

/-- What is taken off a text is taken off before anything that ends a number. -/
structure Split (f : List Char → List Char × List Char) : Prop where
  append : ∀ text, (f text).1 ++ (f text).2 = text
  frame : ∀ text rest, Ends rest → f (text ++ rest) = ((f text).1, (f text).2 ++ rest)

theorem ends_cons {c : Char} : Ends (c :: rest) ↔ isNumeral c = false := by simp [Ends]

theorem isNumeral_of_isSpace {c : Char} (h : isSpace c) : isNumeral c = false := by
  have hspaces : ∀ c ∈ [' ', '\t', '\n', '\r'], isNumeral c = false := by simp [isNumeral]
  apply hspaces
  simpa [isSpace, or_assoc] using h

theorem splitDigits_split : Split splitDigits where
  append text := List.takeWhile_append_dropWhile
  frame text rest h := by
    induction text with
    | nil =>
        cases rest with
        | nil => rfl
        | cons c rest =>
            have hc : c.isDigit = false := by
              have hn := ends_cons.mp h
              simp only [isNumeral, Bool.or_eq_false_iff] at hn
              exact hn.1.1.1.1.1
            simp [splitDigits, hc]
    | cons c text ih =>
        simp only [splitDigits, Prod.mk.injEq] at ih
        by_cases hc : c.isDigit
        · simp [splitDigits, hc, ih.1, ih.2]
        · simp [splitDigits, hc]

theorem splitSign_split (signs : List Char) (h : ∀ c ∈ signs, isNumeral c) :
    Split (splitSign signs) where
  append text := by
    cases text with
    | nil => rfl
    | cons c text =>
        by_cases hc : c ∈ signs
        · simp [splitSign, hc]
        · simp [splitSign, hc]
  frame text rest hrest := by
    cases text with
    | nil =>
        cases rest with
        | nil => rfl
        | cons c rest =>
            have hc : c ∉ signs := by
              intro hmem
              rw [ends_cons, h c hmem] at hrest
              cases hrest
            simp [splitSign, hc]
    | cons c text =>
        by_cases hc : c ∈ signs
        · simp [splitSign, hc]
        · simp [splitSign, hc]

theorem splitWhole_split : Split splitWhole where
  append text := by
    cases text with
    | nil => rfl
    | cons c text =>
        by_cases hc : c = '0'
        · simp [splitWhole, hc]
        · simp only [splitWhole, if_neg hc]
          exact splitDigits_split.append (c :: text)
  frame text rest hrest := by
    cases text with
    | nil =>
        cases rest with
        | nil => rfl
        | cons c rest =>
            have hc : c ≠ '0' := by
              intro hc
              rw [ends_cons, hc] at hrest
              exact absurd hrest (by decide)
            have hdigits := splitDigits_split.frame [] (c :: rest) hrest
            simp only [splitWhole, List.nil_append, if_neg hc] at hdigits ⊢
            rw [hdigits]
            rfl
    | cons c text =>
        by_cases hc : c = '0'
        · simp [splitWhole, hc]
        · simp only [splitWhole, List.cons_append, if_neg hc]
          exact splitDigits_split.frame (c :: text) rest hrest

theorem splitFraction_split : Split splitFraction where
  append text := by
    cases text with
    | nil => rfl
    | cons c text =>
        have h := splitDigits_split.append text
        rw [splitFraction]
        dsimp only
        split
        · rw [List.cons_append, h]
        · rfl
  frame text rest hrest := by
    cases text with
    | nil =>
        cases rest with
        | nil => rfl
        | cons c rest =>
            have hc : c ≠ '.' := by
              intro hc
              rw [ends_cons, hc] at hrest
              exact absurd hrest (by decide)
            simp [splitFraction, hc]
    | cons c text =>
        have h := splitDigits_split.frame text rest hrest
        simp only [splitFraction, List.cons_append, h]
        split
        · rfl
        · rfl

theorem splitExponent_split : Split splitExponent where
  append text := by
    cases text with
    | nil => rfl
    | cons c text =>
        have hsign := (splitSign_split ['-', '+'] (by simp [isNumeral])).append text
        have h := splitDigits_split.append (splitSign ['-', '+'] text).2
        rw [splitExponent]
        dsimp only
        split
        · rw [List.cons_append, List.append_assoc, h, hsign]
        · rfl
  frame text rest hrest := by
    cases text with
    | nil =>
        cases rest with
        | nil => rfl
        | cons c rest =>
            have hc : ¬ (c = 'e' ∨ c = 'E') := by
              intro hc
              rw [ends_cons] at hrest
              cases hc with
              | inl hc => exact absurd (hc ▸ hrest) (by decide)
              | inr hc => exact absurd (hc ▸ hrest) (by decide)
            simp [splitExponent, hc]
    | cons c text =>
        have hsign := (splitSign_split ['-', '+'] (by simp [isNumeral])).frame text rest hrest
        have h := splitDigits_split.frame (splitSign ['-', '+'] text).2 rest hrest
        simp only [splitExponent, List.cons_append, hsign, h]
        split
        · rfl
        · rfl

theorem scanNumber_append (L : Limits) (text : List Char) (h : Ends rest) :
    scanNumber L (text ++ rest) = (scanNumber L text).map fun x => (x.1, x.2 ++ rest) := by
  have hsign := splitSign_split ['-'] (by simp [isNumeral])
  simp only [scanNumber, hsign.frame text rest h, splitWhole_split.frame _ rest h,
    splitFraction_split.frame _ rest h, splitExponent_split.frame _ rest h]
  split
  · rfl
  · split
    · rfl
    · split
      · rfl
      · rfl

theorem scanNumber_used {L : Limits} {v : Value} (h : scanNumber L text = .ok (v, rest)) :
    ∃ used, used ≠ [] ∧ text = used ++ rest := by
  have hsign := (splitSign_split ['-'] (by simp [isNumeral])).append text
  have hwhole := splitWhole_split.append (splitSign ['-'] text).2
  have hfraction := splitFraction_split.append (splitWhole (splitSign ['-'] text).2).2
  have hexponent :=
    splitExponent_split.append (splitFraction (splitWhole (splitSign ['-'] text).2).2).2
  simp only [scanNumber] at h
  split at h
  case isTrue => cases h
  case isFalse hne =>
      have hrest : (splitExponent
          (splitFraction (splitWhole (splitSign ['-'] text).2).2).2).2 = rest := by
        split at h
        · cases h
          rfl
        · split at h
          · cases h
          · cases h
            rfl
      rw [hrest] at hexponent
      refine ⟨(splitSign ['-'] text).1 ++ ((splitWhole (splitSign ['-'] text).2).1 ++
        ((splitFraction (splitWhole (splitSign ['-'] text).2).2).1 ++
          (splitExponent (splitFraction (splitWhole (splitSign ['-'] text).2).2).2).1)), ?_, ?_⟩
      · simp [hne]
      · simp only [List.append_assoc, hexponent, hfraction, hwhole, hsign]

/-- A scanner takes something and leaves the rest, and it takes the same before any rest that
ends a number. After a value that closes itself there may be anything. -/
def Framed {α : Type} (closed : α → Prop) (scan : Scan α) : Prop :=
  ∀ text x rest, scan text = .ok (x, rest) →
    ∃ used, used ≠ [] ∧ text = used ++ rest ∧
      (closed x ∨ Ends rest → ∀ rest', closed x ∨ Ends rest' →
        scan (used ++ rest') = .ok (x, rest'))

/-- A list or a dict. -/
def Value.Closed : Value → Prop
  | .list _ | .dict _ => True
  | _ => False

theorem scanNumber_open {L : Limits} {v : Value} (h : scanNumber L text = .ok (v, rest)) :
    ¬ v.Closed := by
  simp only [scanNumber] at h
  split at h
  · cases h
  · split at h
    · cases h
      exact id
    · split at h
      · cases h
      · cases h
        exact id

theorem framed_scanNumber (L : Limits) : Framed Value.Closed (scanNumber L) := by
  intro text v rest h
  obtain ⟨used, hne, htext⟩ := scanNumber_used h
  refine ⟨used, hne, htext, ?_⟩
  intro hends rest' hends'
  have hrest := hends.resolve_left (scanNumber_open h)
  have hrest' := hends'.resolve_left (scanNumber_open h)
  rw [htext, scanNumber_append L used hrest] at h
  rw [scanNumber_append L used hrest']
  cases hused : scanNumber L used with
  | error e =>
      rw [hused] at h
      cases h
  | ok x =>
      rw [hused] at h
      injection h with h
      injection h with hv hleft
      have hnil : x.2 = [] := List.append_left_eq_self.mp hleft
      simp [Except.map, hnil, ← hv]

/-- No constant begins as a number does. -/
theorem scanNumber_constant (L : Limits) {x : List Char × Value} (h : x ∈ constants)
    (text : List Char) : scanNumber L (x.1 ++ text) = .error .decode := by
  simp only [constants, List.mem_cons, List.not_mem_nil, or_false] at h
  obtain rfl | rfl | rfl | rfl | rfl | rfl := h <;> rfl

theorem find_constant {x : List Char × Value} (h : x ∈ constants) (text : List Char) :
    (constants.find? fun y => y.1.isPrefixOf (x.1 ++ text)) = some x := by
  simp only [constants, List.mem_cons, List.not_mem_nil, or_false] at h
  obtain rfl | rfl | rfl | rfl | rfl | rfl := h <;> rfl

theorem framed_scanScalar (L : Limits) : Framed Value.Closed (scanScalar L) := by
  intro text v rest h
  rw [scanScalar] at h
  cases hfind : constants.find? fun x => x.1.isPrefixOf text with
  | some x =>
      rw [hfind] at h
      have hmem := List.mem_of_find?_eq_some hfind
      have hprefix := List.find?_some hfind
      obtain ⟨tail, htail⟩ := List.isPrefixOf_iff_prefix.mp hprefix
      have hx : x.2 = v ∧ tail = rest := by
        rw [← htail] at h
        simpa using h
      have hnonempty : ∀ x ∈ constants, x.1 ≠ [] := by decide
      refine ⟨x.1, hnonempty x hmem, by rw [← htail, hx.2], ?_⟩
      intro _ rest' _
      simp [scanScalar, find_constant hmem, hx.1]
  | none =>
      rw [hfind] at h
      obtain ⟨used, hne, htext, hframe⟩ := framed_scanNumber L text v rest h
      refine ⟨used, hne, htext, ?_⟩
      intro hends rest' hends'
      have hnumber := hframe hends rest' hends'
      rw [scanScalar]
      cases hfind' : constants.find? fun x => x.1.isPrefixOf (used ++ rest') with
      | none => exact hnumber
      | some x =>
          have hprefix := List.find?_some hfind'
          obtain ⟨tail, htail⟩ := List.isPrefixOf_iff_prefix.mp hprefix
          rw [← htail, scanNumber_constant L (List.mem_of_find?_eq_some hfind')] at hnumber
          cases hnumber

theorem map_before {unit : ℕ} {units : List ℕ} {scanned : Option (List ℕ × List Char)}
    (h : scanned.map (before unit) = some (units, rest)) :
    ∃ tail, scanned = some (tail, rest) ∧ units = unit :: tail := by
  cases scanned with
  | none => cases h
  | some x =>
      cases h
      exact ⟨x.1, rfl, rfl⟩

theorem scanUnits_used {units : List ℕ} (h : scanUnits text = some (units, rest)) :
    ∃ used, used ≠ [] ∧ text = used ++ rest ∧
      ∀ rest', scanUnits (used ++ rest') = some (units, rest') := by
  fun_induction scanUnits text generalizing units rest with
  | case1 | case3 | case5 | case7 => cases h
  | case2 text =>
      cases h
      refine ⟨['"'], List.cons_ne_nil _ _, rfl, ?_⟩
      intro rest'
      rw [scanUnits.eq_def]
      rfl
  | case4 a b c d text _ ih =>
      obtain ⟨unit, hunit, hmap⟩ := Option.bind_eq_some_iff.mp h
      obtain ⟨tail, htail, hunits⟩ := map_before hmap
      obtain ⟨used, _, htext, hframe⟩ := ih htail
      refine ⟨'\\' :: 'u' :: a :: b :: c :: d :: used, List.cons_ne_nil _ _, by rw [htext]; rfl, ?_⟩
      intro rest'
      rw [scanUnits.eq_def]
      simp [hunit, hframe, before, hunits]
  | case6 e text hu _ ih =>
      obtain ⟨unit, hunit, hmap⟩ := Option.bind_eq_some_iff.mp h
      obtain ⟨tail, htail, hunits⟩ := map_before hmap
      obtain ⟨used, _, htext, hframe⟩ := ih htail
      refine ⟨'\\' :: e :: used, List.cons_ne_nil _ _, by rw [htext]; rfl, ?_⟩
      intro rest'
      rw [scanUnits.eq_def]
      simp [hu, hunit, hframe, before, hunits]
  | case8 c text hquote hslash hcontrol ih =>
      obtain ⟨tail, htail, hunits⟩ := map_before h
      obtain ⟨used, _, htext, hframe⟩ := ih htail
      refine ⟨c :: used, List.cons_ne_nil _ _, by rw [htext]; rfl, ?_⟩
      intro rest'
      rw [scanUnits.eq_def]
      simp [hquote, hslash, hcontrol, hframe, before, hunits]

theorem scanString_used {points : List ℕ} (h : scanString text = .ok (points, rest)) :
    ∃ used, used ≠ [] ∧ text = used ++ rest ∧
      ∀ rest', scanString (used ++ rest') = .ok (points, rest') := by
  rw [scanString] at h
  cases hunits : scanUnits text with
  | none =>
      rw [hunits] at h
      cases h
  | some x =>
      rw [hunits] at h
      cases h
      obtain ⟨used, hne, htext, hframe⟩ := scanUnits_used hunits
      refine ⟨used, hne, htext, ?_⟩
      intro rest'
      rw [scanString, hframe rest']

/-- A character after white space, which goes with it. -/
theorem skipSpace_cons {c : Char} (h : skipSpace text = c :: rest) :
    ∃ space, text = space ++ c :: rest ∧ ∀ rest',
      skipSpace (space ++ c :: rest') = c :: rest' ∧
        (isNumeral c = false → Ends (space ++ c :: rest')) := by
  have hc : isSpace c = false := by
    have hhead := List.head_dropWhile_not isSpace (show text.dropWhile isSpace ≠ [] by
      rw [show text.dropWhile isSpace = c :: rest from h]
      exact List.cons_ne_nil _ _)
    simpa [show text.dropWhile isSpace = c :: rest from h] using hhead
  have hspace : ∀ d ∈ text.takeWhile isSpace, isSpace d := fun d hd => List.mem_takeWhile_imp hd
  refine ⟨text.takeWhile isSpace, ?_, ?_⟩
  · rw [← h]
    exact List.takeWhile_append_dropWhile.symm
  · intro rest'
    refine ⟨?_, ?_⟩
    · rw [skipSpace, List.dropWhile_append_of_pos hspace, List.dropWhile_cons_of_neg (by simp [hc])]
    · intro hnumeral
      cases hw : text.takeWhile isSpace with
      | nil => exact ends_cons.mpr hnumeral
      | cons d space =>
          apply ends_cons.mpr
          exact isNumeral_of_isSpace (hspace d (hw ▸ List.mem_cons_self))

theorem expect_used {c : Char} (h : expect c text = .ok ((), rest)) :
    ∃ used, text = used ++ rest ∧ ∀ rest', expect c (used ++ rest') = .ok ((), rest') ∧
      (isNumeral c = false → Ends (used ++ rest')) := by
  rw [expect] at h
  cases hskip : skipSpace text with
  | nil =>
      rw [hskip] at h
      cases h
  | cons d tail =>
      rw [hskip] at h
      obtain ⟨space, htext, hframe⟩ := skipSpace_cons hskip
      by_cases hd : d = c
      · simp only [if_pos hd] at h
        cases h
        refine ⟨space ++ [d], by simpa using htext, ?_⟩
        intro rest'
        have hrest' := hframe rest'
        rw [List.append_assoc, List.singleton_append, expect, hrest'.1]
        exact ⟨if_pos hd, hd ▸ hrest'.2⟩
      · simp only [if_neg hd] at h
        cases h

theorem bind_eq_ok {α β : Type} {x : Except Failure α} {f : α → Except Failure β} {b : β}
    (h : (x >>= f) = .ok b) : ∃ a, x = .ok a ∧ f a = .ok b := by
  cases x with
  | error e => cases h
  | ok a => exact ⟨a, rfl, h⟩

theorem bind_of_ok {α β : Type} {x : Except Failure α} {f : α → Except Failure β} {a : α}
    (h : x = .ok a) : (x >>= f) = f a := by
  rw [h]
  rfl

/-- A value after white space. -/
theorem Framed.skipSpace {α : Type} {closed : α → Prop} {scan : Scan α} {x : α}
    (hscan : Framed closed scan) (h : scan (skipSpace text) = .ok (x, rest)) :
    ∃ used, text = used ++ rest ∧ (closed x ∨ Ends rest → ∀ rest', closed x ∨ Ends rest' →
      scan (JsonText.skipSpace (used ++ rest')) = .ok (x, rest')) := by
  obtain ⟨used, hne, htext, hframe⟩ := hscan _ x _ h
  cases used with
  | nil => exact absurd rfl hne
  | cons c used =>
      obtain ⟨space, hspace, hspaces⟩ := skipSpace_cons htext
      refine ⟨space ++ c :: used, by simpa using hspace, ?_⟩
      intro hends rest' hends'
      rw [List.append_assoc, List.cons_append, (hspaces _).1]
      exact hframe hends rest' hends'

theorem framed_scanMember {value : Scan Value} (h : Framed Value.Closed value) :
    Framed (fun m => m.2.Closed) (scanMember value) := by
  intro text m rest hscan
  cases text with
  | nil => cases hscan
  | cons c text =>
      by_cases hc : c = '"'
      · simp only [scanMember, if_pos hc] at hscan
        obtain ⟨⟨key, afterKey⟩, hkey, hscan⟩ := bind_eq_ok hscan
        obtain ⟨⟨_, afterColon⟩, hcolon, hscan⟩ := bind_eq_ok hscan
        obtain ⟨⟨v, afterValue⟩, hvalue, hscan⟩ := bind_eq_ok hscan
        cases hscan
        obtain ⟨usedKey, _, htext, hkeys⟩ := scanString_used hkey
        obtain ⟨usedColon, hafterKey, hcolons⟩ := expect_used hcolon
        obtain ⟨usedValue, hafterColon, hvalues⟩ := h.skipSpace hvalue
        refine ⟨c :: (usedKey ++ (usedColon ++ usedValue)), List.cons_ne_nil _ _, ?_, ?_⟩
        · dsimp only at hafterKey hafterColon
          simp [htext, hafterKey, hafterColon]
        · intro hends rest' hends'
          simp only [List.cons_append, List.append_assoc, scanMember, if_pos hc]
          refine (bind_of_ok (hkeys _)).trans ?_
          refine (bind_of_ok (hcolons _).1).trans ?_
          exact bind_of_ok (hvalues hends rest' hends')
      · simp only [scanMember, if_neg hc] at hscan
        cases hscan

/-- The items take what is before the bracket that closes them, which ends a number as a comma
does. No more fuel is needed than they have characters. -/
theorem scanItems_used {α : Type} {closed : α → Prop} {item : Scan α} {close : Char} {n : ℕ}
    {xs : List α} (hitem : Framed closed item) (hclose : isNumeral close = false)
    (h : scanItems item close n text = .ok (xs, rest)) :
    ∃ used, used ≠ [] ∧ text = used ++ close :: rest ∧ ∀ rest' n', used.length ≤ n' →
      scanItems item close n' (used ++ close :: rest') = .ok (xs, rest') := by
  induction n generalizing text xs with
  | zero => cases h
  | succ n ih =>
      rw [scanItems] at h
      obtain ⟨⟨x, afterItem⟩, hx, h⟩ := bind_eq_ok h
      obtain ⟨usedItem, hne, htext, hitems⟩ := hitem _ x _ hx
      cases hskip : skipSpace afterItem with
      | nil =>
          simp only [hskip] at h
          cases h
      | cons c tail =>
          obtain ⟨space, hspace, hspaces⟩ := skipSpace_cons hskip
          have hnext : isNumeral c = false → ∀ rest',
              item (usedItem ++ (space ++ c :: rest')) = .ok (x, space ++ c :: rest') := by
            intro hc rest'
            exact hitems (.inr (hspace ▸ (hspaces tail).2 hc)) _ (.inr ((hspaces rest').2 hc))
          simp only [hskip] at h
          have hlength : 0 < usedItem.length := List.length_pos_iff.mpr hne
          by_cases hc : c = close
          · simp only [if_pos hc] at h
            cases h
            refine ⟨usedItem ++ space, by simp [hne], by simp [htext, hspace, hc], ?_⟩
            intro rest' n' hn
            rw [List.length_append] at hn
            cases n' with
            | zero => omega
            | succ n' =>
                rw [scanItems, List.append_assoc, ← hc]
                refine (bind_of_ok (hnext (hc ▸ hclose) rest')).trans ?_
                simp only [(hspaces rest').1, if_pos]
          · simp only [if_neg hc] at h
            by_cases hcomma : c = ','
            · simp only [if_pos hcomma] at h
              obtain ⟨⟨ys, afterItems⟩, hys, h⟩ := bind_eq_ok h
              cases h
              obtain ⟨usedItems, hne', htail, hrest⟩ := ih hys
              cases usedItems with
              | nil => exact absurd rfl hne'
              | cons d usedItems =>
                  obtain ⟨space', hspace', hspaces'⟩ := skipSpace_cons htail
                  refine ⟨usedItem ++ (space ++ c :: (space' ++ d :: usedItems)), by simp,
                    by simp [htext, hspace, hspace'], ?_⟩
                  intro rest' n' hn
                  simp only [List.length_append, List.length_cons] at hn
                  cases n' with
                  | zero => omega
                  | succ n' =>
                      rw [scanItems]
                      simp only [List.append_assoc, List.cons_append]
                      refine (bind_of_ok (hnext (hcomma ▸ rfl) _)).trans ?_
                      simp only [(hspaces _).1, if_neg hc, if_pos hcomma, (hspaces' _).1]
                      exact bind_of_ok (hrest rest' n' (by simp only [List.length_cons]; omega))
            · simp only [if_neg hcomma] at h
              cases h

theorem scanBody_used {α : Type} {closed : α → Prop} {item : Scan α} {close : Char}
    {xs : List α} (hitem : Framed closed item) (hclose : isNumeral close = false)
    (h : scanBody item close text = .ok (xs, rest)) :
    ∃ used, text = used ++ close :: rest ∧
      ∀ rest', scanBody item close (used ++ close :: rest') = .ok (xs, rest') := by
  rw [scanBody] at h
  cases hskip : skipSpace text with
  | nil =>
      rw [hskip] at h
      cases h
  | cons c tail =>
      simp only [hskip] at h
      by_cases hc : c = close
      · simp only [if_pos hc] at h
        cases h
        obtain ⟨space, hspace, hspaces⟩ := skipSpace_cons hskip
        refine ⟨space, hc ▸ hspace, ?_⟩
        intro rest'
        rw [scanBody, ← hc, (hspaces _).1]
        exact if_pos rfl
      · simp only [if_neg hc] at h
        obtain ⟨used, hne, htail, hitems⟩ := scanItems_used hitem hclose h
        cases used with
        | nil => exact absurd rfl hne
        | cons d used =>
            obtain ⟨space, hspace, hspaces⟩ := skipSpace_cons (hskip.trans htail)
            refine ⟨space ++ d :: used, by simpa using hspace, ?_⟩
            intro rest'
            have hd : d = c := by
              injection htail with hd
              exact hd.symm
            rw [scanBody, List.append_assoc, List.cons_append, (hspaces _).1]
            simp only [hd, if_neg hc]
            refine Eq.trans ?_ (hitems rest' (c :: (used ++ close :: rest')).length ?_)
            · rw [hd, List.cons_append]
            · simp only [List.length_cons, List.length_append]
              omega

/-- An object takes what is up to its closing brace, and yields a dict. -/
theorem object_used {L : Limits} {depth : ℕ} {v : Value}
    (hframed : ∀ d < depth, Framed Value.Closed (scanOnce L d))
    (h : scanOnce L depth ('{' :: text) = .ok (v, rest)) :
    v.IsDict ∧ ∃ used, text = used ++ '}' :: rest ∧
      ∀ rest', scanOnce L depth ('{' :: (used ++ '}' :: rest')) = .ok (v, rest') := by
  cases depth with
  | zero => cases h
  | succ depth =>
      have hmember := framed_scanMember (hframed depth (Nat.lt_succ_self depth))
      obtain ⟨⟨members, _⟩, hmembers, h⟩ := bind_eq_ok h
      cases h
      obtain ⟨used, htext, hframe⟩ := scanBody_used hmember rfl hmembers
      refine ⟨trivial, used, htext, ?_⟩
      intro rest'
      exact bind_of_ok (hframe rest')

theorem framed_scanOnce (L : Limits) (depth : ℕ) : Framed Value.Closed (scanOnce L depth) := by
  induction depth using Nat.strong_induction_on with
  | _ depth ih =>
      intro text v rest h
      cases text with
      | nil =>
          rw [scanOnce_nil] at h
          cases h
      | cons c text =>
          by_cases hquote : c = '"'
          · subst hquote
            rw [scanOnce_quote] at h
            obtain ⟨⟨points, _⟩, hpoints, h⟩ := bind_eq_ok h
            cases h
            obtain ⟨used, _, htext, hframe⟩ := scanString_used hpoints
            refine ⟨'"' :: used, List.cons_ne_nil _ _, by rw [htext]; rfl, ?_⟩
            intro _ rest' _
            rw [List.cons_append, scanOnce_quote]
            exact bind_of_ok (hframe rest')
          · by_cases hbrace : c = '{'
            · subst hbrace
              obtain ⟨_, used, htext, hframe⟩ := object_used ih h
              refine ⟨'{' :: (used ++ ['}']), List.cons_ne_nil _ _, by simp [htext], ?_⟩
              intro _ rest' _
              simpa using hframe rest'
            · by_cases hbracket : c = '['
              · subst hbracket
                cases depth with
                | zero => cases h
                | succ depth =>
                    obtain ⟨⟨items, _⟩, hitems, h⟩ := bind_eq_ok h
                    cases h
                    obtain ⟨used, htext, hframe⟩ :=
                      scanBody_used (ih depth (Nat.lt_succ_self depth)) rfl hitems
                    refine ⟨'[' :: (used ++ [']']), List.cons_ne_nil _ _, by simp [htext], ?_⟩
                    intro _ rest' _
                    rw [List.cons_append, List.append_assoc]
                    exact bind_of_ok (hframe rest')
              · have hscalar : c ∉ ['"', '{', '['] := by simp [hquote, hbrace, hbracket]
                rw [scanOnce_scalar L depth text hscalar] at h
                obtain ⟨used, hne, htext, hframe⟩ := framed_scanScalar L _ v rest h
                refine ⟨used, hne, htext, ?_⟩
                cases used with
                | nil => exact absurd rfl hne
                | cons d used =>
                    cases htext
                    simpa only [List.cons_append, scanOnce_scalar L depth _ hscalar] using hframe

theorem scanScalar_not_isDict {L : Limits} {v : Value} (h : scanScalar L text = .ok (v, rest)) :
    ¬ v.IsDict := by
  rw [scanScalar] at h
  cases hfind : constants.find? fun x => x.1.isPrefixOf text with
  | some x =>
      rw [hfind] at h
      cases h
      have hmem := List.mem_of_find?_eq_some hfind
      simp only [constants, List.mem_cons, List.not_mem_nil, or_false] at hmem
      obtain rfl | rfl | rfl | rfl | rfl | rfl := hmem <;> exact id
  | none =>
      rw [hfind] at h
      intro hv
      apply scanNumber_open h
      cases v with
      | dict entries => trivial
      | _ => cases hv

/-- Only an object yields a dict. -/
theorem brace_of_isDict {L : Limits} {depth : ℕ} {v : Value}
    (h : scanOnce L depth text = .ok (v, rest)) (hv : v.IsDict) : ∃ tail, text = '{' :: tail := by
  cases text with
  | nil =>
      rw [scanOnce_nil] at h
      cases h
  | cons c text =>
      by_cases hbrace : c = '{'
      · exact ⟨text, by rw [hbrace]⟩
      · by_cases hquote : c = '"'
        · subst hquote
          rw [scanOnce_quote] at h
          obtain ⟨_, _, h⟩ := bind_eq_ok h
          cases h
          cases hv
        · by_cases hbracket : c = '['
          · subst hbracket
            cases depth with
            | zero => cases h
            | succ depth =>
                obtain ⟨_, _, h⟩ := bind_eq_ok h
                cases h
                cases hv
          · rw [scanOnce_scalar L depth text (by simp [hquote, hbrace, hbracket])] at h
            exact absurd hv (scanScalar_not_isDict h)

end Frames

section Objects
variable {L : Limits} {text : List Char}

/-- A part of the text decodes as an object. -/
def Contains (L : Limits) (text : List Char) : Prop :=
  ∃ object v, object <:+: text ∧ loads L object = .ok v ∧ v.IsDict

theorem loads_eq_ok {v : Value} (h : loads L text = .ok v) :
    ∃ rest, rawDecode L (skipSpace text) = .ok (v, rest) ∧ skipSpace rest = [] := by
  obtain ⟨⟨w, rest⟩, hraw, h⟩ := bind_eq_ok h
  by_cases hrest : skipSpace rest = []
  · simp only [if_pos hrest] at h
    cases h
    exact ⟨rest, hraw, hrest⟩
  · simp only [if_neg hrest] at h
    cases h

/-- The object that a decoder finds at a brace is the part of the text that it takes. -/
theorem loads_object {v : Value} {tail rest : List Char}
    (h : rawDecode L ('{' :: tail) = .ok (v, rest)) :
    v.IsDict ∧ ∃ used, tail = used ++ '}' :: rest ∧
      loads L ('{' :: (used ++ ['}'])) = .ok v := by
  obtain ⟨hv, used, htail, hframe⟩ := object_used (fun d _ => framed_scanOnce L d) h
  refine ⟨hv, used, htail, ?_⟩
  exact bind_of_ok (hframe [])

/-- A text contains an object when the decoder finds one at a brace of it. -/
theorem contains_iff : Contains L text ↔
    ∃ before tail v rest, text = before ++ '{' :: tail ∧
      rawDecode L ('{' :: tail) = .ok (v, rest) := by
  constructor
  · intro h
    obtain ⟨object, v, ⟨before, after, htext⟩, hloads, hv⟩ := h
    obtain ⟨rest, hraw, _⟩ := loads_eq_ok hloads
    obtain ⟨tail, htail⟩ := brace_of_isDict hraw hv
    obtain ⟨space, hobject, _⟩ := skipSpace_cons htail
    rw [htail] at hraw
    obtain ⟨_, used, hused, hframe⟩ := object_used (fun d _ => framed_scanOnce L d) hraw
    refine ⟨before ++ space, tail ++ after, v, rest ++ after, ?_, ?_⟩
    · simp [← htext, hobject]
    · rw [hused, List.append_assoc, List.cons_append]
      exact hframe _
  · intro h
    obtain ⟨before, tail, v, rest, htext, hraw⟩ := h
    obtain ⟨hv, used, htail, hloads⟩ := loads_object hraw
    exact ⟨_, v, ⟨before, rest, by simp [htext, htail]⟩, hloads, hv⟩

end Objects

end Engramia.Library.JsonText
