import ItemLexicon.Proofs.Membership

namespace ItemLexicon

theorem findSome?_congr {α β : Type} {f g : α → Option β} {l : List α} (h : ∀ a ∈ l, f a = g a) :
    l.findSome? f = l.findSome? g := by
  induction l with
  | nil => rfl
  | cons a l ih =>
    rw [List.forall_mem_cons] at h
    rw [List.findSome?_cons, List.findSome?_cons, h.1, ih h.2]

namespace Text

theorem isSuffix_of_dropPrefix? {w s t : List Char} (h : dropPrefix? w s = some t) : t <:+ s :=
  ⟨w, (eq_append_of_dropPrefix? h).symm⟩

theorem isPrefix_of_dropSuffix? {w s t : List Char} (h : dropSuffix? w s = some t) : t <+: s :=
  ⟨w, (dropSuffix?_eq_some_iff.mp h).symm⟩

theorem dropPrefix?_of_not_prefix {w s : List Char} (h : ¬w <+: s) : dropPrefix? w s = none := by
  cases found : dropPrefix? w s with
  | none => rfl
  | some t => exact absurd ⟨t, (eq_append_of_dropPrefix? found).symm⟩ h

theorem eq_append_of_mem_cutsAt {w s : List Char} {sides : List Char × List Char}
    (h : sides ∈ cutsAt w s) : s = sides.1 ++ w ++ sides.2 := by
  induction s generalizing sides with
  | nil => cases h
  | cons c s ih =>
    have later : sides ∈ (cutsAt w s).map (fun p => (c :: p.1, p.2)) →
        c :: s = sides.1 ++ w ++ sides.2 := by
      intro h
      obtain ⟨p, hp, rfl⟩ := List.mem_map.mp h
      exact congrArg (c :: ·) (ih hp)
    rw [cutsAt] at h
    split at h
    · rename_i rest first
      rcases List.mem_cons.mp h with rfl | h
      · exact eq_append_of_dropPrefix? first
      · exact later h
    · exact later h

theorem isPrefix_of_mem_cutsAt {w s : List Char} {sides : List Char × List Char}
    (h : sides ∈ cutsAt w s) : sides.1 <+: s := by
  rw [eq_append_of_mem_cutsAt h, List.append_assoc]
  exact List.prefix_append ..

theorem cutsAt_of_not_infix {w s : List Char} (h : ¬w <:+: s) : cutsAt w s = [] := by
  rw [List.eq_nil_iff_forall_not_mem]
  intro sides hs
  exact h ⟨sides.1, sides.2, (eq_append_of_mem_cutsAt hs).symm⟩

end Text

namespace Quantifier

theorem isSuffix_dropPrefix? (w s : List Char) : (Text.dropPrefix? w s).getD s <:+ s := by
  cases h : Text.dropPrefix? w s with
  | none => exact List.suffix_rfl
  | some t => exact Text.isSuffix_of_dropPrefix? h

theorem isSuffix_inWords (s : List Char) : (inWords s).2 <:+ s := by
  rw [inWords]
  split
  · rename_i name h
    exact Text.isSuffix_of_dropPrefix? h
  · split
    · rename_i name h
      rcases Option.or_eq_some_iff.mp h with h | ⟨-, h⟩
      · exact Text.isSuffix_of_dropPrefix? h
      · exact Text.isSuffix_of_dropPrefix? h
    · exact List.suffix_rfl

theorem isSuffix_afterAmount (n : Nat) (s : List Char) : (afterAmount n s).2 <:+ s := by
  rw [afterAmount]
  split
  · rename_i name h
    exact Text.isSuffix_of_dropPrefix? h
  · exact isSuffix_dropPrefix? _ s

theorem isSuffix_read (s : List Char) : (read s).2 <:+ s := by
  rw [read]
  split
  · rename_i digits rest h
    split
    · have behind : rest <:+ s := by
        rw [(Text.cut_eq_some_iff.mp h).1]
        exact (List.suffix_cons ' ' rest).trans (List.suffix_append digits _)
      exact (isSuffix_afterAmount _ rest).trans behind
    · exact isSuffix_inWords s
  · exact isSuffix_inWords s

end Quantifier

namespace Context

variable {c d : Context}

/-- Two contexts of one platform know the same of all pieces of a text. -/
structure Alike (c d : Context) (s : List Char) : Prop where
  platform : c.platform = d.platform
  items : ∀ piece, piece <:+: s → c.items? piece = d.items? piece

theorem Alike.mono {s t : List Char} (h : c.Alike d s) (piece : t <:+: s) : c.Alike d t :=
  ⟨h.platform, fun u hu => h.items u (hu.trans piece)⟩

theorem isPrefix_of_dropWord? {words : List String} {name base : List Char}
    (h : dropWord? words name = some base) : base <+: name := by
  obtain ⟨w, -, hw⟩ := List.exists_of_findSome?_eq_some h
  split at hw
  · rename_i found
    cases hw
    exact Text.isPrefix_of_dropSuffix? found
  · cases hw

theorem isPrefix_of_cutForm? {name base : List Char} {keep : Item → Bool}
    (h : cutForm? name = some (base, keep)) : base <+: name := by
  rw [cutForm?] at h
  split at h
  · rename_i found
    cases h
    exact isPrefix_of_dropWord? found
  · obtain ⟨base', found, same⟩ := Option.map_eq_some_iff.mp h
    cases same
    exact isPrefix_of_dropWord? found

variable {name : List Char}

theorem Alike.alias? (h : c.Alike d name) : c.alias? name = d.alias? name := by
  have named := Quantifier.isSuffix_dropPrefix? "any ".toList name
  rw [Context.alias?, Context.alias?]
  rw [h.items _ named.isInfix]
  cases form : cutForm? ((Text.dropPrefix? "any ".toList name).getD name) with
  | none => rfl
  | some cut =>
    have base : cut.1 <:+: name := (isPrefix_of_cutForm? form).isInfix.trans named.isInfix
    simp only [h.items _ base]

theorem Alike.type? (h : c.Alike d name) : c.type? name = d.type? name := by
  rw [Context.type?, Context.type?, h.alias?, air?, air?, h.platform]

theorem Alike.quantified? (h : c.Alike d name) (q : Quantifier) :
    c.quantified? q name = d.quantified? q name := by
  rw [Context.quantified?, Context.quantified?, h.type?]

theorem Alike.enchanted? {sides : List Char × List Char} (h : c.Alike d sides.1)
    (q : Quantifier) : c.enchanted? q sides = d.enchanted? q sides := by
  rw [Context.enchanted?, Context.enchanted?, h.quantified?, h.platform]

theorem Alike.resolve? {text : String} (h : c.Alike d (Text.lower (Text.trim text.toList))) :
    c.resolve? text = d.resolve? text := by
  have named := h.mono (Quantifier.isSuffix_read (Text.lower (Text.trim text.toList))).isInfix
  have parted : ∀ q, ∀ sides ∈ Text.cutsAt " of ".toList
      (Quantifier.read (Text.lower (Text.trim text.toList))).2,
      c.enchanted? q sides = d.enchanted? q sides := by
    intro q sides hs
    exact (named.mono (Text.isPrefix_of_mem_cutsAt hs).isInfix).enchanted? q
  rw [Context.resolve?, Context.resolve?]
  simp only [named.quantified?, findSome?_congr (parted _)]

theorem resolve?_eq_quantified? {text : String}
    (ne : Text.lower (Text.trim text.toList) ≠ [])
    (star : Text.lower (Text.trim text.toList) ≠ ['*'])
    (unquantified : Quantifier.read (Text.lower (Text.trim text.toList)) =
      (.none, Text.lower (Text.trim text.toList)))
    (unparted : Text.cutsAt " of ".toList (Text.lower (Text.trim text.toList)) = []) :
    c.resolve? text = c.quantified? .none (Text.lower (Text.trim text.toList)) := by
  have named : (Text.lower (Text.trim text.toList)).isEmpty = false :=
    List.isEmpty_eq_false_iff.mpr ne
  rw [Context.resolve?]
  simp only [named, Bool.false_eq_true, if_false, star, unquantified, unparted]
  rfl

/-- A name that is looked up as it stands, with nothing to take off it: no quantifier, no
enchantments, no `any` and no word for a form. -/
structure IsPlain (name : List Char) : Prop where
  ne_nil : name ≠ []
  ne_everything : name ≠ ['*']
  unquantified : Quantifier.read name = (.none, name)
  unparted : Text.cutsAt " of ".toList name = []
  single : Text.dropPrefix? "any ".toList name = none
  formless : cutForm? name = none
  word : name.all Char.isDigit = false

namespace IsPlain

theorem alias? (h : IsPlain name) : c.alias? name = c.items? name := by
  rw [Context.alias?, h.single, Option.getD_none, h.formless]
  cases c.items? name <;> rfl

theorem resolve? {text : String} (h : IsPlain (Text.lower (Text.trim text.toList))) :
    c.resolve? text = c.quantified? .none (Text.lower (Text.trim text.toList)) :=
  resolve?_eq_quantified? h.ne_nil h.ne_everything h.unquantified h.unparted

theorem type? (h : IsPlain name) : c.type? name = c.items? name := by
  have named : name.isEmpty = false := List.isEmpty_eq_false_iff.mpr h.ne_nil
  simp only [Context.type?, named, h.word, Bool.false_eq_true, if_false, h.alias?]

theorem resolve?_eq_none {text : String} (h : IsPlain (Text.lower (Text.trim text.toList)))
    (unknown : c.items? (Text.lower (Text.trim text.toList)) = none) : c.resolve? text = none := by
  rw [h.resolve?, Context.quantified?, h.type?, unknown]

theorem resolve?_eq_some {text : String} (h : IsPlain (Text.lower (Text.trim text.toList)))
    {items : List Item} (ne : items ≠ [])
    (known : c.items? (Text.lower (Text.trim text.toList)) = some items) :
    c.resolve? text = some (.ofItems items) := by
  obtain ⟨i, rest, rfl⟩ := List.exists_cons_of_ne_nil ne
  rw [h.resolve?, Context.quantified?, h.type?, known]
  rfl

end IsPlain

end Context

end ItemLexicon
