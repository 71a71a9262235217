import Scriptlet.Json.Basic
import Scriptlet.Proofs.Numeral.Printed

/-!
# `Proofs.Json.Compact` — the one-line form of a value is read in one way

The first character of a value tells what the value is, but for numbers: these go on as long as there
are characters of numbers, and have a point or an exponent unless they are whole. A string ends at the
first quote that no backslash stands before. So a value's text says where the value ends, and different
values have different texts, even before other text. Only floats that are not finite are lost, because
their text is that of null.

## Contents
- `Json.finite`: the value with null for the floats that have no number in JSON.
- `Json.compact_finite`: it has the same text.
- `TextKind`, `Json.kind`, `ofChars_compact`: what a text starts with.
- `stringText_unique`, `number_unique`: text at the start of which a string or a number stands.
- `ReadsOnce`, `items_unique`: several texts with commas between them.
- `compact_readsOnce`, `compact_eq_iff`: a text is that of one value.
-/

namespace Scriptlet

namespace Json

/-! ## Floats that are no numbers -/

mutual

/-- The value with null for its floats that are not finite. -/
def finite : Json → Json
  | null => null
  | bool b => bool b
  | int n => int n
  | float x => if (Numeral.finiteText? Numeral.jsonStyle x).isSome then float x else null
  | str s => str s
  | arr elements => arr (finiteList elements)
  | obj members => obj (finiteMembers members)

/-- Values with null for their floats that are not finite. -/
def finiteList : List Json → List Json
  | [] => []
  | v :: vs => v.finite :: finiteList vs

/-- Members with null for their floats that are not finite. -/
def finiteMembers : List Member → List Member
  | [] => []
  | m :: ms => finiteMember m :: finiteMembers ms

/-- The member with null for its floats that are not finite. -/
def finiteMember : Member → Member
  | ⟨name, value⟩ => ⟨name, value.finite⟩

end

section Floats

variable {x : Float} {text : String}

theorem finite_float_none (h : Numeral.finiteText? Numeral.jsonStyle x = none) :
    (float x).finite = null := by simp [finite, h]

theorem finite_float_some (h : Numeral.finiteText? Numeral.jsonStyle x = some text) :
    (float x).finite = float x := by simp [finite, h]

theorem compact_float_none (h : Numeral.finiteText? Numeral.jsonStyle x = none) :
    (float x).compact = "null" := by simp [compact, floatValueText, h]

theorem compact_float_some (h : Numeral.finiteText? Numeral.jsonStyle x = some text) :
    (float x).compact = text := by simp [compact, floatValueText, h]

end Floats

mutual

theorem compact_finite : ∀ v : Json, v.finite.compact = v.compact
  | null | bool _ | int _ | str _ => rfl
  | float x => by
    cases htext : Numeral.finiteText? Numeral.jsonStyle x with
    | none =>
      rw [finite_float_none htext, compact_float_none htext]
      rfl
    | some text => rw [finite_float_some htext]
  | arr elements => by
    simp only [finite, compact, compactList_finite elements]
  | obj members => by
    simp only [finite, compact, compactMembers_finite members]

theorem compactList_finite : ∀ vs : List Json, compactList (finiteList vs) = compactList vs
  | [] => rfl
  | v :: vs => congrArg₂ List.cons (compact_finite v) (compactList_finite vs)

theorem compactMembers_finite :
    ∀ ms : List Member, compactMembers (finiteMembers ms) = compactMembers ms
  | [] => rfl
  | m :: ms => congrArg₂ List.cons (compactMember_finite m) (compactMembers_finite ms)

theorem compactMember_finite : ∀ m : Member, compactMember (finiteMember m) = compactMember m
  | ⟨_, value⟩ => congrArg (_ ++ ":" ++ ·) (compact_finite value)

end

/-! ## Strings -/

/-- What a character behind a backslash stands for. -/
def escapedChar (c : Char) : Char :=
  if c = 'n' then '\n'
  else if c = 'r' then '\r'
  else if c = 't' then '\t'
  else if c = 'b' then '\x08'
  else if c = 'f' then '\x0c'
  else c

/-- Reads one character of a string; nothing at the end of the string. -/
def readChar : List Char → Option (Char × List Char)
  | [] => none
  | c :: r =>
    if c = '"' then none
    else if c = '\\' then
      match r with
      | 'u' :: '0' :: '0' :: high :: low :: r =>
        (Numeral.digitsValue? 16 [high, low]).map fun n => (Char.ofNat n, r)
      | c :: r => some (escapedChar c, r)
      | [] => none
    else some (c, r)

theorem digitsValue?_hex : ∀ n : Fin 32,
    Numeral.digitsValue? 16 [Nat.digitChar (n.val / 16), Nat.digitChar (n.val % 16)] =
      some n.val := by
  decide

/-- Reading undoes writing. -/
theorem readChar_stringChar (c : Char) (r : List Char) :
    readChar (stringChar c ++ r) = some (c, r) := by
  unfold stringChar
  iterate 7
    split
    · subst_vars
      rfl
  split
  · next hlow =>
    have hvalue := digitsValue?_hex ⟨c.toNat, hlow⟩
    show ((Numeral.digitsValue? 16 [_, _]).map _ : Option (Char × List Char)) = _
    rw [hvalue, Option.map_some, Char.ofNat_toNat]
    rfl
  · next hquote hbackslash _ _ _ _ _ _ => exact (if_neg hquote).trans (if_neg hbackslash)

section Strings

variable {r r' : List Char}

theorem stringChars_unique {cs ds : List Char}
    (h : cs.flatMap stringChar ++ '"' :: r = ds.flatMap stringChar ++ '"' :: r') :
    cs = ds ∧ r = r' := by
  -- one character is read off both texts at a time; the quote at the end is none
  have hread := congrArg readChar h
  induction cs generalizing ds with
  | nil =>
    cases ds with
    | nil => exact ⟨rfl, (List.cons.inj h).2⟩
    | cons d ds =>
      rw [List.flatMap_cons, List.append_assoc, readChar_stringChar] at hread
      cases hread
  | cons c cs ih =>
    cases ds with
    | nil =>
      rw [List.flatMap_cons, List.append_assoc, readChar_stringChar] at hread
      cases hread
    | cons d ds =>
      simp only [List.flatMap_cons, List.append_assoc, readChar_stringChar] at hread
      obtain ⟨rfl, hrest⟩ := Prod.mk.inj (Option.some.inj hread)
      obtain ⟨rfl, hr⟩ := ih hrest (congrArg readChar hrest)
      exact ⟨rfl, hr⟩

theorem stringText_unique {s t : String}
    (h : (stringText s).toList ++ r = (stringText t).toList ++ r') : s = t ∧ r = r' := by
  simp only [stringText, String.toList_ofList, List.cons_append, List.append_assoc,
    List.nil_append] at h
  obtain ⟨hchars, hr⟩ := stringChars_unique (List.cons.inj h).2
  exact ⟨String.toList_inj.mp hchars, hr⟩

end Strings

/-! ## Numbers -/

/-- The characters that numbers are made of. -/
def isNumberChar (c : Char) : Bool := c.isDigit || c = '.' || c = '-' || c = '+' || c = 'e'

/-- Text in front of which a number may end. -/
def EndsNumber (r : List Char) : Prop := ∀ c ∈ r.head?, isNumberChar c = false

section Numbers

variable {cs ds r r' : List Char} {x : Float} {text : String}

theorem number_unique (hcs : ∀ c ∈ cs, isNumberChar c = true) (hds : ∀ c ∈ ds, isNumberChar c = true)
    (hr : EndsNumber r) (hr' : EndsNumber r') (h : cs ++ r = ds ++ r') : cs = ds ∧ r = r' := by
  obtain ⟨htake, hdrop⟩ := span_append hcs hr
  obtain ⟨htake', hdrop'⟩ := span_append hds hr'
  rw [h] at htake hdrop
  exact ⟨htake.symm.trans htake', hdrop.symm.trans hdrop'⟩

theorem isNumberChar_of_isDigit {c : Char} (h : c.isDigit = true) : isNumberChar c = true := by
  simp [isNumberChar, h]

theorem isNumberChar_toDigits (n : Nat) : ∀ c ∈ Nat.toDigits 10 n, isNumberChar c = true :=
  fun c hc => isNumberChar_of_isDigit ((Numeral.digits_toDigits n).all_isDigit c hc)

/-- Integers have neither a point nor an exponent. -/
theorem int_chars (n : Int) : ∀ c ∈ (toString n).toList, c.isDigit = true ∨ c = '-' := by
  have hdigits (k : Nat) : ∀ c ∈ Nat.toDigits 10 k, c.isDigit = true :=
    (Numeral.digits_toDigits k).all_isDigit
  intro c hc
  cases n with
  | ofNat n =>
    rw [Numeral.toList_toString_ofNat] at hc
    exact Or.inl (hdigits n c hc)
  | negSucc n =>
    rw [Numeral.toList_toString_negSucc] at hc
    rcases List.mem_cons.mp hc with hminus | hc
    · exact Or.inr hminus
    · exact Or.inl (hdigits _ c hc)

/-- Text of a number that has a point or an exponent. -/
structure IsFraction (cs : List Char) : Prop where
  chars : ∀ c ∈ cs, isNumberChar c = true
  mark : '.' ∈ cs ∨ 'e' ∈ cs

theorem isNumberChar_point : ∀ c ∈ ['0', '.'] ++ ['0'], isNumberChar c = true := by
  intro c hc
  have hc : c = '0' ∨ c = '.' ∨ c = '0' := by simpa using hc
  rcases hc with rfl | rfl | rfl <;> rfl

theorem isFraction_positional {digits : List Char} (h : ∀ c ∈ digits, isNumberChar c = true)
    (place : Int) : IsFraction (Numeral.positional true digits place) := by
  have hzeros (k : Nat) : ∀ c ∈ List.replicate k '0', isNumberChar c = true := by
    intro c hc
    rw [List.eq_of_mem_replicate hc]
    rfl
  unfold Numeral.positional
  dsimp only
  split
  · refine ⟨?_, by simp⟩
    rw [List.forall_mem_append, List.forall_mem_append]
    exact ⟨⟨h, hzeros _⟩, (List.forall_mem_cons.mp isNumberChar_point).2⟩
  split
  · refine ⟨?_, by simp⟩
    rw [List.forall_mem_append, List.forall_mem_cons]
    exact ⟨fun c hc => h c (List.mem_of_mem_take hc), rfl, fun c hc => h c (List.mem_of_mem_drop hc)⟩
  · refine ⟨?_, by simp⟩
    rw [List.forall_mem_append, List.forall_mem_append]
    exact ⟨⟨(List.forall_mem_append.mp isNumberChar_point).1, hzeros _⟩, h⟩

theorem isFraction_scientific {digits : List Char} (h : ∀ c ∈ digits, isNumberChar c = true)
    (place : Int) : IsFraction (Numeral.scientific digits place) := by
  have hexponent : ∀ c ∈ 'e' :: (if place - 1 < 0 then '-' else '+') ::
      Nat.toDigits 10 (place - 1).natAbs, isNumberChar c = true := by
    rw [List.forall_mem_cons, List.forall_mem_cons]
    refine ⟨rfl, ?_, isNumberChar_toDigits _⟩
    split <;> rfl
  unfold Numeral.scientific
  dsimp only
  refine ⟨?_, by simp⟩
  rw [List.append_assoc, List.forall_mem_append, List.forall_mem_append]
  refine ⟨fun c hc => h c (List.mem_of_mem_take hc), ?_, hexponent⟩
  split
  · exact fun c hc => absurd hc List.not_mem_nil
  · rw [List.forall_mem_cons]
    exact ⟨rfl, fun c hc => h c (List.mem_of_mem_tail hc)⟩

/-- Floats have one or the other. -/
theorem isFraction_of_finiteText? (h : Numeral.finiteText? Numeral.jsonStyle x = some text) :
    IsFraction text.toList := by
  unfold Numeral.finiteText? at h
  split at h
  · cases h
  · cases h
  · next negative m q narrow hx =>
    have hbody : IsFraction (
        if m = 0 then '0' :: (if Numeral.jsonStyle.keepsPoint then ['.', '0'] else [])
        else ((Numeral.Interval.ofBinary m q narrow).shortest Numeral.jsonStyle.tie).layout
          Numeral.jsonStyle) := by
      split
      · exact ⟨isNumberChar_point, Or.inl (by decide)⟩
      · unfold Numeral.Decimal.layout
        dsimp only [Numeral.jsonStyle]
        split
        · exact isFraction_positional (isNumberChar_toDigits _) _
        · exact isFraction_scientific (isNumberChar_toDigits _) _
    rw [← Option.some.inj h, String.toList_ofList]
    split
    · refine ⟨?_, hbody.mark.imp (List.mem_cons_of_mem _) (List.mem_cons_of_mem _)⟩
      rw [List.forall_mem_cons]
      exact ⟨rfl, hbody.chars⟩
    · exact hbody

end Numbers

/-! ## What a text starts with -/

/-- What the text of a value may be. -/
inductive TextKind where
  | nothing
  | null
  | yes
  | no
  | whole
  | fraction
  | str
  | arr
  | obj

/-- What stands at the start of a text. -/
def TextKind.ofChars : List Char → TextKind
  | [] => .nothing
  | c :: cs =>
    if c = 'n' then .null
    else if c = 't' then .yes
    else if c = 'f' then .no
    else if c = '"' then .str
    else if c = '[' then .arr
    else if c = '\x7b' then .obj
    else
      let number := (c :: cs).takeWhile isNumberChar
      if number = [] then .nothing
      else if '.' ∈ number ∨ 'e' ∈ number then .fraction
      else .whole

/-- What the text of a value is. -/
def kind : Json → TextKind
  | null => .null
  | bool b => if b then .yes else .no
  | int _ => .whole
  | float x => if (Numeral.finiteText? Numeral.jsonStyle x).isSome then .fraction else .null
  | str _ => .str
  | arr _ => .arr
  | obj _ => .obj

theorem kind_float_none {x : Float} (h : Numeral.finiteText? Numeral.jsonStyle x = none) :
    (float x).kind = .null := by simp [kind, h]

theorem kind_float_some {x : Float} {text : String}
    (h : Numeral.finiteText? Numeral.jsonStyle x = some text) : (float x).kind = .fraction := by
  simp [kind, h]

/-- The values of a kind. -/
def TextKind.Holds (v : Json) : TextKind → Prop
  | .nothing => False
  | .null => v.finite = .null ∧ v.compact = "null"
  | .yes => v = .bool true
  | .no => v = .bool false
  | .whole => ∃ n, v = .int n
  | .fraction => ∃ x text, v = .float x ∧ Numeral.finiteText? Numeral.jsonStyle x = some text
  | .str => ∃ s, v = .str s
  | .arr => ∃ vs, v = .arr vs
  | .obj => ∃ ms, v = .obj ms

theorem holds_kind (v : Json) : v.kind.Holds v := by
  cases v with
  | null => exact ⟨rfl, rfl⟩
  | bool b => cases b <;> rfl
  | int n => exact ⟨n, rfl⟩
  | float x =>
    cases htext : Numeral.finiteText? Numeral.jsonStyle x with
    | none =>
      rw [kind_float_none htext]
      exact ⟨finite_float_none htext, compact_float_none htext⟩
    | some text =>
      rw [kind_float_some htext]
      exact ⟨x, text, rfl, htext⟩
  | str s => exact ⟨s, rfl⟩
  | arr vs => exact ⟨vs, rfl⟩
  | obj ms => exact ⟨ms, rfl⟩

section Kinds

variable {cs r : List Char}

theorem ofChars_number (hcs : ∀ c ∈ cs, isNumberChar c = true) (hne : cs ≠ []) (hr : EndsNumber r) :
    TextKind.ofChars (cs ++ r) = if '.' ∈ cs ∨ 'e' ∈ cs then .fraction else .whole := by
  have htake := (span_append hcs hr).1
  have hsome := hne
  -- none of the characters that start other values is one of a number
  obtain ⟨c, cs, rfl⟩ := List.exists_cons_of_ne_nil hne
  have hother : ∀ d, isNumberChar d = false → c ≠ d := by
    rintro d hd rfl
    rw [hcs c List.mem_cons_self] at hd
    cases hd
  rw [List.cons_append, TextKind.ofChars, ← List.cons_append]
  rw [if_neg (hother 'n' rfl), if_neg (hother 't' rfl), if_neg (hother 'f' rfl),
    if_neg (hother '"' rfl), if_neg (hother '[' rfl), if_neg (hother '\x7b' rfl)]
  dsimp only
  rw [htake, if_neg hsome]

theorem isNumberChar_int (n : Int) : ∀ c ∈ (toString n).toList, isNumberChar c = true := by
  intro c hc
  rcases int_chars n c hc with hdigit | rfl
  · exact isNumberChar_of_isDigit hdigit
  · rfl

theorem ofChars_int (n : Int) (hr : EndsNumber r) :
    TextKind.ofChars ((toString n).toList ++ r) = .whole := by
  have hne : (toString n).toList ≠ [] := by
    cases n with
    | ofNat n =>
      rw [Numeral.toList_toString_ofNat]
      exact Nat.toDigits_ne_nil
    | negSucc n =>
      rw [Numeral.toList_toString_negSucc]
      exact List.cons_ne_nil _ _
  rw [ofChars_number (isNumberChar_int n) hne hr, if_neg]
  rintro (hpoint | hexponent)
  · exact absurd (int_chars n '.' hpoint) (by decide)
  · exact absurd (int_chars n 'e' hexponent) (by decide)

theorem ofChars_fraction (h : IsFraction cs) (hr : EndsNumber r) :
    TextKind.ofChars (cs ++ r) = .fraction := by
  have hne : cs ≠ [] := by
    rintro rfl
    rcases h.mark with hmark | hmark <;> cases hmark
  rw [ofChars_number h.chars hne hr, if_pos h.mark]

theorem arr_chars (vs : List Json) :
    (arr vs).compact.toList = '[' :: ((String.intercalate "," (compactList vs)).toList ++ [']']) := by
  simp only [compact, String.toList_append]
  rfl

theorem obj_chars (ms : List Member) :
    (obj ms).compact.toList =
      '\x7b' :: ((String.intercalate "," (compactMembers ms)).toList ++ ['\x7d']) := by
  simp only [compact, String.toList_append]
  rfl

theorem member_chars (name : String) (value : Json) :
    (compactMember ⟨name, value⟩).toList =
      (stringText name).toList ++ ':' :: value.compact.toList := by
  simp only [compactMember, String.toList_append]
  exact List.append_assoc _ _ _

/-- The start of a text tells what the value is. -/
theorem ofChars_compact (v : Json) (hr : EndsNumber r) :
    TextKind.ofChars (v.compact.toList ++ r) = v.kind := by
  cases v with
  | null => rfl
  | bool b => cases b <;> rfl
  | int n => exact ofChars_int n hr
  | float x =>
    cases htext : Numeral.finiteText? Numeral.jsonStyle x with
    | none =>
      rw [kind_float_none htext, compact_float_none htext]
      rfl
    | some text =>
      rw [kind_float_some htext, compact_float_some htext]
      exact ofChars_fraction (isFraction_of_finiteText? htext) hr
  | str s =>
    simp only [compact, stringText, String.toList_ofList]
    rfl
  | arr vs =>
    rw [arr_chars]
    rfl
  | obj ms =>
    rw [obj_chars]
    rfl

end Kinds

/-! ## Lists -/

/-- Text behind which what `text` gives for `a` ends is read in one way, up to `norm`. -/
def ReadsOnce {α β : Type} (text : α → String) (norm : α → β) (a : α) : Prop :=
  ∀ (b : α) {r r' : List Char}, EndsNumber r → EndsNumber r' →
    (text a).toList ++ r = (text b).toList ++ r' → norm a = norm b ∧ r = r'

/-- Texts behind the first one, each after a comma. -/
def moreChars (texts : List String) : List Char := texts.flatMap fun text => ',' :: text.toList

theorem moreChars_cons (text : String) (texts : List String) :
    moreChars (text :: texts) = ',' :: (text.toList ++ moreChars texts) := rfl

theorem commas_chars (text : String) (texts : List String) :
    (String.intercalate "," (text :: texts)).toList = text.toList ++ moreChars texts := by
  rw [String.toList_intercalate, List.map_cons, intercalate_cons, List.flatMap_map]
  rfl

section Lists

variable {α β : Type} {text : α → String} {norm : α → β} {c : Char} {as bs : List α}
  {r r' : List Char}

theorem endsNumber_more (hc : isNumberChar c = false) (texts : List String) (r : List Char) :
    EndsNumber (moreChars texts ++ c :: r) := by
  intro d hd
  cases texts <;> cases hd
  · exact hc
  · rfl

theorem more_unique (hc : isNumberChar c = false) (hcomma : c ≠ ',')
    (has : ∀ a ∈ as, ReadsOnce text norm a)
    (h : moreChars (as.map text) ++ c :: r = moreChars (bs.map text) ++ c :: r') :
    as.map norm = bs.map norm ∧ r = r' := by
  induction as generalizing bs with
  | nil =>
    cases bs with
    | nil => exact ⟨rfl, (List.cons.inj h).2⟩
    | cons b bs => exact absurd (List.cons.inj h).1 hcomma
  | cons a as ih =>
    cases bs with
    | nil => exact absurd (List.cons.inj h).1.symm hcomma
    | cons b bs =>
      obtain ⟨ha, has⟩ := List.forall_mem_cons.mp has
      rw [List.map_cons, List.map_cons, moreChars_cons, moreChars_cons] at h
      rw [List.cons_append, List.cons_append, List.append_assoc, List.append_assoc] at h
      have hnext := (List.cons.inj h).2
      obtain ⟨hab, hmore⟩ :=
        ha b (endsNumber_more hc (as.map text) r) (endsNumber_more hc (bs.map text) r') hnext
      obtain ⟨hrest, hr⟩ := ih has hmore
      exact ⟨congrArg₂ List.cons hab hrest, hr⟩

/-- Items with commas between them, up to a character that ends them. -/
theorem items_unique (hc : isNumberChar c = false) (hcomma : c ≠ ',')
    (hstart : ∀ a r r', EndsNumber r → (text a).toList ++ r ≠ c :: r')
    (has : ∀ a ∈ as, ReadsOnce text norm a)
    (h : (String.intercalate "," (as.map text)).toList ++ c :: r =
      (String.intercalate "," (bs.map text)).toList ++ c :: r') :
    as.map norm = bs.map norm ∧ r = r' := by
  cases as with
  | nil =>
    cases bs with
    | nil => exact ⟨rfl, (List.cons.inj h).2⟩
    | cons b bs =>
      -- the character that ends the items is not the start of one
      rw [List.map_cons, commas_chars, List.append_assoc] at h
      exact absurd h.symm (hstart b _ r (endsNumber_more hc _ r'))
  | cons a as =>
    cases bs with
    | nil =>
      rw [List.map_cons, commas_chars, List.append_assoc] at h
      exact absurd h (hstart a _ r' (endsNumber_more hc _ r))
    | cons b bs =>
      obtain ⟨ha, has⟩ := List.forall_mem_cons.mp has
      rw [List.map_cons, List.map_cons, commas_chars, commas_chars, List.append_assoc,
        List.append_assoc] at h
      obtain ⟨hab, hmore⟩ := ha b (endsNumber_more hc _ r) (endsNumber_more hc _ r') h
      obtain ⟨hrest, hr⟩ := more_unique hc hcomma has hmore
      exact ⟨congrArg₂ List.cons hab hrest, hr⟩

theorem compactList_eq (vs : List Json) : compactList vs = vs.map compact := by
  induction vs with
  | nil => rfl
  | cons v vs ih => exact congrArg (v.compact :: ·) ih

theorem compactMembers_eq (ms : List Member) : compactMembers ms = ms.map compactMember := by
  induction ms with
  | nil => rfl
  | cons m ms ih => exact congrArg (compactMember m :: ·) ih

theorem finiteList_eq (vs : List Json) : finiteList vs = vs.map finite := by
  induction vs with
  | nil => rfl
  | cons v vs ih => exact congrArg (v.finite :: ·) ih

theorem finiteMembers_eq (ms : List Member) : finiteMembers ms = ms.map finiteMember := by
  induction ms with
  | nil => rfl
  | cons m ms ih => exact congrArg (finiteMember m :: ·) ih

/-- No value starts with a closing bracket. -/
theorem compact_ne_bracket (v : Json) (hr : EndsNumber r) : v.compact.toList ++ r ≠ ']' :: r' := by
  intro h
  have hkind := holds_kind v
  rw [← ofChars_compact v hr, h] at hkind
  exact hkind

/-- No member starts with a closing brace. -/
theorem compactMember_ne_brace (m : Member) : (compactMember m).toList ++ r ≠ '\x7d' :: r' := by
  intro h
  obtain ⟨name, value⟩ := m
  rw [member_chars] at h
  simp only [stringText, String.toList_ofList, List.cons_append] at h
  exact absurd (List.cons.inj h).1 (by decide)

end Lists

/-! ## Values -/

section Values

variable {u v : Json} {r r' : List Char}

/-- Values whose texts start alike are of one kind. -/
theorem holds_of_compact (hr : EndsNumber r) (hr' : EndsNumber r')
    (h : u.compact.toList ++ r = v.compact.toList ++ r') : u.kind.Holds v := by
  have hkind := holds_kind v
  rw [← ofChars_compact v hr', ← h, ofChars_compact u hr] at hkind
  exact hkind

/-- The text of null is that of floats that are not finite. -/
theorem readsOnce_of_null (hkind : u.kind = .null) : ReadsOnce compact finite u := by
  intro v r r' hr hr' h
  have hu := holds_kind u
  have hv := holds_of_compact hr hr' h
  rw [hkind] at hu hv
  obtain ⟨hfinite, hcompact⟩ := hu
  obtain ⟨hfinite', hcompact'⟩ := hv
  rw [hcompact, hcompact'] at h
  exact ⟨hfinite.trans hfinite'.symm, List.append_cancel_left h⟩

theorem readsOnce_bool (b : Bool) : ReadsOnce compact finite (bool b) := by
  intro v r r' hr hr' h
  have hv : v = bool b := by cases b <;> exact holds_of_compact hr hr' h
  subst hv
  exact ⟨rfl, List.append_cancel_left h⟩

theorem readsOnce_int (n : Int) : ReadsOnce compact finite (int n) := by
  intro v r r' hr hr' h
  obtain ⟨m, rfl⟩ := holds_of_compact hr hr' h
  obtain ⟨htext, hrest⟩ := number_unique (isNumberChar_int n) (isNumberChar_int m) hr hr' h
  have hvalue (k : Int) : Numeral.integerValue? (toString k).toList = some k :=
    have ⟨hspells, hfree⟩ := Numeral.spellsInteger_toString k
    (Numeral.integerValue?_eq_some_iff hfree).mpr hspells
  have hsame := hvalue n
  rw [htext, hvalue m] at hsame
  rw [Option.some.inj hsame]
  exact ⟨rfl, hrest⟩

theorem readsOnce_float (x : Float) : ReadsOnce compact finite (float x) := by
  cases htext : Numeral.finiteText? Numeral.jsonStyle x with
  | none => exact readsOnce_of_null (kind_float_none htext)
  | some text =>
    intro v r r' hr hr' h
    have hv := holds_of_compact hr hr' h
    rw [kind_float_some htext] at hv
    obtain ⟨y, text', rfl, htext'⟩ := hv
    rw [compact_float_some htext, compact_float_some htext'] at h
    obtain ⟨hsame, hrest⟩ := number_unique (isFraction_of_finiteText? htext).chars
      (isFraction_of_finiteText? htext').chars hr hr' h
    rw [← String.toList_inj.mp hsame] at htext'
    rw [Numeral.eq_of_finiteText? htext htext']
    exact ⟨rfl, hrest⟩

theorem readsOnce_str (s : String) : ReadsOnce compact finite (str s) := by
  intro v r r' hr hr' h
  obtain ⟨t, rfl⟩ := holds_of_compact hr hr' h
  obtain ⟨rfl, hrest⟩ := stringText_unique (s := s) (t := t) h
  exact ⟨rfl, hrest⟩

theorem readsOnce_arr {us : List Json} (hus : ∀ u ∈ us, ReadsOnce compact finite u) :
    ReadsOnce compact finite (arr us) := by
  intro v r r' hr hr' h
  obtain ⟨vs, rfl⟩ := holds_of_compact hr hr' h
  simp only [arr_chars, List.cons_append, List.append_assoc, compactList_eq] at h
  obtain ⟨helements, hrest⟩ := items_unique rfl (by decide)
    (fun v _ _ => compact_ne_bracket v) hus (List.cons.inj h).2
  rw [← finiteList_eq, ← finiteList_eq] at helements
  exact ⟨congrArg arr helements, hrest⟩

theorem readsOnce_obj {ms : List Member} (hms : ∀ m ∈ ms, ReadsOnce compactMember finiteMember m) :
    ReadsOnce compact finite (obj ms) := by
  intro v r r' hr hr' h
  obtain ⟨ns, rfl⟩ := holds_of_compact hr hr' h
  simp only [obj_chars, List.cons_append, List.append_assoc, compactMembers_eq] at h
  obtain ⟨hmembers, hrest⟩ := items_unique rfl (by decide)
    (fun m _ _ _ => compactMember_ne_brace m) hms (List.cons.inj h).2
  rw [← finiteMembers_eq, ← finiteMembers_eq] at hmembers
  exact ⟨congrArg obj hmembers, hrest⟩

theorem readsOnce_member {value : Json} (hvalue : ReadsOnce compact finite value) (name : String) :
    ReadsOnce compactMember finiteMember ⟨name, value⟩ := by
  rintro ⟨name', value'⟩ r r' hr hr' h
  rw [member_chars, member_chars, List.append_assoc, List.append_assoc] at h
  obtain ⟨rfl, hrest⟩ := stringText_unique h
  obtain ⟨hfinite, hrest⟩ := hvalue value' hr hr' (List.cons.inj hrest).2
  exact ⟨congrArg (Member.mk name) hfinite, hrest⟩

end Values

mutual

/-- A text starts with one value at most, up to floats that are not finite. -/
theorem compact_readsOnce : ∀ u : Json, ReadsOnce compact finite u
  | null => readsOnce_of_null rfl
  | bool b => readsOnce_bool b
  | int n => readsOnce_int n
  | float x => readsOnce_float x
  | str s => readsOnce_str s
  | arr us => readsOnce_arr (compactList_readsOnce us)
  | obj ms => readsOnce_obj (compactMembers_readsOnce ms)

theorem compactList_readsOnce : ∀ us : List Json, ∀ u ∈ us, ReadsOnce compact finite u
  | [] => fun _ hu => absurd hu List.not_mem_nil
  | u :: us => List.forall_mem_cons.mpr ⟨compact_readsOnce u, compactList_readsOnce us⟩

theorem compactMembers_readsOnce :
    ∀ ms : List Member, ∀ m ∈ ms, ReadsOnce compactMember finiteMember m
  | [] => fun _ hm => absurd hm List.not_mem_nil
  | m :: ms => List.forall_mem_cons.mpr ⟨compactMember_readsOnce m, compactMembers_readsOnce ms⟩

theorem compactMember_readsOnce : ∀ m : Member, ReadsOnce compactMember finiteMember m
  | ⟨name, value⟩ => readsOnce_member (compact_readsOnce value) name

end

end Json

end Scriptlet
