import ItemLexicon.Proofs.Sessions
import ItemLexicon.Proofs.SmallLetters

namespace ItemLexicon

namespace Text

/-- A text that lower-casing and trimming leave as it is. -/
structure IsTidy (s : List Char) : Prop where
  ne_nil : s ≠ []
  trim : IsTrim s
  small : ∀ c ∈ s, IsSmall c

theorem isTidy_lower {s : List Char} (ne : s ≠ []) (h : IsTrim s) : IsTidy (lower s) where
  ne_nil := by
    have longer := length_le_lowerAfter [] s
    have pos := List.length_pos_iff.mpr ne
    exact List.length_pos_iff.mp (Nat.lt_of_lt_of_le pos longer)
  trim := isTrim_lower_iff.mpr h
  small := fun _ hc => isSmall_of_mem_lower hc

end Text

namespace Noun

theorem forms_tidy {s : List Char} (ne : (forms s).1 ≠ []) :
    Text.IsTrim (forms s).1 ∧ Text.IsTrim (forms s).2 ∧ (forms s).2 ≠ [] := by
  rw [forms] at ne ⊢
  split at ne
  · exact ⟨Text.isTrim_trim s, Text.isTrim_trim s, ne⟩
  · refine ⟨Text.isTrim_trim _, Text.isTrim_trim _, fun none => ne ?_⟩
    rw [Text.trim_eq_nil_iff, List.forall_mem_append] at none ⊢
    exact ⟨none.1, fun c hc => none.2 c ((List.dropWhile_sublist _).subset hc)⟩

end Noun

namespace Loader

theorem forms_of_aliasName {expanded : List Char} {name : AliasName}
    (h : (aliasName expanded).1 = some name) :
    let forms := Noun.forms (Noun.cutGender expanded).1
    forms.1 ≠ [] ∧ ∀ key, name.HasKey key ↔
      key.toList = Text.lower forms.1 ∨ key.toList = Text.lower forms.2 := by
  intro forms
  rw [aliasName] at h
  simp only at h
  split at h
  · cases h
  · rename_i ne
    cases h
    refine ⟨fun none => ne (List.isEmpty_iff.mpr none), fun key => ?_⟩
    simp only [AliasName.HasKey, Text.lowercase, String.toList_ofList, forms, ← String.toList_inj]

theorem isTidy_of_aliasName {expanded : List Char} {name : AliasName}
    (h : (aliasName expanded).1 = some name) {key : String} (hk : name.HasKey key) :
    Text.IsTidy key.toList := by
  obtain ⟨ne, form⟩ := forms_of_aliasName h
  obtain ⟨singular, plural, ne'⟩ := Noun.forms_tidy ne
  rcases (form key).mp hk with eq | eq
  · rw [eq]
    exact Text.isTidy_lower ne singular
  · rw [eq]
    exact Text.isTidy_lower ne' plural

end Loader

namespace Request

def expanded (find : Groups) : Request → List (List Char)
  | .group .. => []
  | .define pattern _ => (names pattern).flatMap fun name =>
    (Expansion.ofName find name).1.map Prod.fst

theorem exists_aliasName_of_mem {find : Groups} {q : Request} {c : Registration}
    (h : c ∈ q.registrations find) :
    ∃ n ∈ q.expanded find, (Loader.aliasName n).1 = some c.name := by
  cases q with
  | group name g => cases h
  | define pattern data =>
    rw [registrations, List.mem_flatMap] at h
    obtain ⟨name, hname, h⟩ := h
    obtain ⟨named, mem, h⟩ := List.mem_flatMap.mp h
    have listed : named.1 ∈ (define pattern data).expanded find :=
      List.mem_flatMap.mpr ⟨name, hname, List.mem_map_of_mem mem⟩
    rw [ofExpanded] at h
    cases forms : (Loader.aliasName named.1).1 with
    | none =>
      rw [forms] at h
      cases h
    | some name =>
      rw [forms] at h
      obtain ⟨item, -, h⟩ := List.mem_flatMap.mp h
      rw [ofItem] at h
      split at h
      · cases h
      · rw [List.mem_singleton.mp h]
        exact ⟨named.1, listed, forms⟩

/-- Some definition asks for the registration, whatever groups there are. -/
def Asks (c : Registration) : Prop :=
  ∃ pattern data find, c ∈ (define pattern data).registrations find

theorem asks_of_mem_allRegistrations {find : Groups} {qs : List Request} {c : Registration}
    (h : c ∈ allRegistrations find qs) : Asks c := by
  induction qs generalizing find with
  | nil => cases h
  | cons q qs ih =>
    rw [allRegistrations] at h
    rcases List.mem_append.mp h with h | h
    · cases q with
      | group name g => cases h
      | define pattern data => exact ⟨pattern, data, find, h⟩
    · exact ih h

theorem Asks.exists_aliasName {c : Registration} (h : Asks c) :
    ∃ find q, ∃ n ∈ expanded find q, (Loader.aliasName n).1 = some c.name := by
  obtain ⟨pattern, data, find, h⟩ := h
  exact ⟨find, _, exists_aliasName_of_mem h⟩

end Request

namespace Registry

/-- The registries that come about by loading texts, also into registries over others. -/
inductive Loaded : Registry → Prop
  | empty (p : Platform) : Loaded (.empty p)
  | layer {r : Registry} (h : Loaded r) : Loaded r.layer
  | text {l : Loader} (h : Loaded l.registry) (source : Option String) (content : String) :
      Loaded (l.text source content).registry

def IsAsked (r : Registry) : Prop :=
  ∀ s ∈ r.scopes, ∀ key n, s.handle? key = some n → ∃ c, Request.Asks c ∧ c.name.HasKey key

variable {r : Registry}

theorem entries?_lowercase (r : Registry) (name : String) :
    r.entries? (Text.lowercase name) = r.entries? name := by
  rw [entries?, entries?, Text.lowercase_lowercase]

theorem IsAsked.register (h : r.IsAsked) (sound : r.Sound) {c : Registration}
    (asked : Request.Asks c) : (r.register c).IsAsked := by
  intro s hs key n hn
  rw [scopes, register_parents] at hs
  rcases List.mem_cons.mp hs with rfl | hs
  · have own := h r.scope List.mem_cons_self
    rcases sound.register_cases c with ⟨-, same⟩ | ⟨-, es, -, same⟩
    · rw [same.handle?] at hn
      exact own key n hn
    · rw [same.handle?, Scope.handle?_bind] at hn
      split at hn
      · rename_i form
        exact ⟨c, asked, form⟩
      · exact own key n hn
  · exact h s (List.mem_cons_of_mem _ hs) key n hn

theorem IsAsked.registerAll (h : r.IsAsked) (sound : r.Sound) {cs : List Registration}
    (asked : ∀ c ∈ cs, Request.Asks c) : (r.registerAll cs).IsAsked := by
  induction cs generalizing r with
  | nil => exact h
  | cons c cs ih =>
    obtain ⟨first, rest⟩ := List.forall_mem_cons.mp asked
    exact ih (h.register sound first) (sound.register c) rest

theorem IsAsked.serve (h : r.IsAsked) (sound : r.Sound) (qs : List Request) :
    (qs.foldl serve r).IsAsked := by
  obtain ⟨gs, served⟩ := r.exists_withGroups qs
  have asked : ∀ c ∈ Request.allRegistrations r.group? qs, Request.Asks c :=
    fun _ hc => Request.asks_of_mem_allRegistrations hc
  have registered := h.registerAll sound asked
  rw [served]
  intro s hs
  rcases List.mem_cons.mp hs with rfl | hs
  · exact registered (r.registerAll _).scope List.mem_cons_self
  · exact registered s (List.mem_cons_of_mem _ hs)

namespace Loaded

theorem reachable (h : r.Loaded) : r.Reachable := by
  induction h with
  | empty p => exact .empty p
  | layer _ ih => exact .layer ih
  | @text l _ source content ih =>
    obtain ⟨ops, changed⟩ := Loader.Changes.of_serves (.text l source content)
    rw [changed]
    exact ih.run ops

theorem isAsked (h : r.Loaded) : r.IsAsked := by
  induction h with
  | empty p =>
    intro s hs key n hn
    rw [List.mem_singleton.mp hs] at hn
    cases hn
  | layer _ ih =>
    intro s hs key n hn
    rcases List.mem_cons.mp hs with rfl | hs
    · cases hn
    · exact ih s hs key n hn
  | @text l h source content ih =>
    rw [(Loader.Serves.text l source content).registry]
    exact ih.serve h.reachable.sound _

theorem isTidy (h : r.Loaded) {name : String} {es : List Entry}
    (known : r.entries? name = some es) : Text.IsTidy (Text.lower name.toList) := by
  obtain ⟨s, hs, found⟩ := List.exists_of_findSome?_eq_some known
  obtain ⟨n, hn, -⟩ := Option.map_eq_some_iff.mp found
  obtain ⟨c, asked, form⟩ := h.isAsked s hs _ n hn
  obtain ⟨_, _, _, -, named⟩ := asked.exists_aliasName
  have tidy := Loader.isTidy_of_aliasName named form
  rwa [Text.lowercase, String.toList_ofList] at tidy

end Loaded

end Registry

namespace Quantifier

def hasNumber (s : List Char) : Bool :=
  match Text.cut ' ' s with
  | some (digits, _) => !digits.isEmpty && digits.all Char.isDigit
  | .none => false

def Leads (s : List Char) : Prop :=
  hasNumber s = true ∨ "every ".toList <+: s ∨ "a ".toList <+: s ∨ "an ".toList <+: s

instance : DecidablePred Leads := fun _ => inferInstanceAs (Decidable (_ ∨ _))

theorem read_of_not_leads {s : List Char} (h : ¬Leads s) : read s = (.none, s) := by
  simp only [Leads, not_or] at h
  obtain ⟨number, every, a, an⟩ := h
  have words : inWords s = (.none, s) := by
    rw [inWords, Text.dropPrefix?_of_not_prefix every, Text.dropPrefix?_of_not_prefix a,
      Text.dropPrefix?_of_not_prefix an]
    rfl
  rw [hasNumber] at number
  rw [read]
  cases first : Text.cut ' ' s with
  | none => exact words
  | some sides =>
    obtain ⟨digits, rest⟩ := sides
    have none' : amount? digits = .none := by
      rw [first] at number
      cases blank : digits.isEmpty with
      | true => rw [amount?, blank]; rfl
      | false =>
        simp only [blank, Bool.not_false, Bool.true_and, Bool.not_eq_true] at number
        rw [amount?, blank, number]
        rfl
    simp only [none', words]

end Quantifier

namespace Context

/-- A name that is no number, has no quantifier and names no enchantments. -/
structure IsUncut (name : List Char) : Prop where
  word : name.all Char.isDigit = false
  unquantified : ¬Quantifier.Leads name
  unparted : ¬" of ".toList <:+: name

instance (name : List Char) : Decidable (IsUncut name) :=
  decidable_of_iff (name.all Char.isDigit = false ∧ ¬Quantifier.Leads name ∧
      ¬" of ".toList <:+: name)
    ⟨fun h => ⟨h.1, h.2.1, h.2.2⟩, fun h => ⟨h.word, h.unquantified, h.unparted⟩⟩

variable {c : Context}

theorem IsUncut.quantified? {name : List Char} (h : IsUncut name) (ne : name ≠ []) :
    c.quantified? .none name = match c.alias? name with
      | some (i :: items) => some (.ofItems (i :: items))
      | _ => none := by
  have named : name.isEmpty = false := List.isEmpty_eq_false_iff.mpr ne
  simp only [Context.quantified?, type?, named, h.word, Bool.false_eq_true, if_false]
  rfl

theorem IsUncut.resolve? {text : String} (h : IsUncut (Text.lower text.toList))
    (tidy : Text.IsTidy (Text.lower text.toList)) (star : Text.lower text.toList ≠ ['*']) :
    c.resolve? text = c.quantified? .none (Text.lower text.toList) := by
  have trimmed : Text.trim text.toList = text.toList :=
    (Text.isTrim_lower_iff.mp tidy.trim).trim_eq
  rw [← trimmed] at h tidy star ⊢
  exact resolve?_eq_quantified? tidy.ne_nil star (Quantifier.read_of_not_leads h.unquantified)
    (Text.cutsAt_of_not_infix h.unparted)

theorem registry_ofRegistry (r : Registry) : (ofRegistry r).registry = r := rfl

theorem items?_lower (n : String) : c.items? (Text.lower n.toList) =
    (c.registry.entries? n).map fun es => es.map Entry.item := by
  rw [items?, ← Text.lowercase, Registry.entries?_lowercase]

/-- A registered name that is not cut resolves to what it lists.  Two names are kept for something
else: `*` stands for everything, and `any` in front of a name for that name. -/
theorem resolve?_of_registered (c : Context) (loaded : c.registry.Loaded) {n : String}
    {es : List Entry} (known : c.registry.entries? n = some es)
    (uncut : IsUncut (Text.lower n.toList)) :
    let key := Text.lower n.toList
    (key ≠ ['*'] → ¬"any ".toList <+: key →
      c.resolve? n = some (.ofItems (es.map Entry.item))) ∧
    (key = ['*'] → c.resolve? n = some .everything) ∧
    ∀ rest, key = "any ".toList ++ rest →
      (∀ es', c.registry.entries? (String.ofList rest) = some es' →
        c.resolve? n = some (.ofItems (es'.map Entry.item))) ∧
      (c.registry.entries? (String.ofList rest) = none → cutForm? rest = none →
        c.resolve? n = none) := by
  intro key
  have tidy : Text.IsTidy key := loaded.isTidy known
  have listed : ∀ {n es}, c.registry.entries? n = some es → es.map Entry.item ≠ [] := by
    intro n es known
    rw [Ne, List.map_eq_nil_iff]
    exact loaded.reachable.bound.ne_nil known
  have answer : ∀ {items}, items ≠ [] → key ≠ ['*'] → c.alias? key = some items →
      c.resolve? n = some (.ofItems items) := by
    intro items ne star found
    obtain ⟨i, items, rfl⟩ := List.exists_cons_of_ne_nil ne
    rw [uncut.resolve? tidy star, uncut.quantified? tidy.ne_nil, found]
  refine ⟨fun star any => answer (listed known) star ?_, fun star => ?_, fun rest any => ?_⟩
  · rw [alias?, Text.dropPrefix?_of_not_prefix any, Option.getD_none, items?_lower, known]
    rfl
  · have trimmed : Text.trim n.toList = n.toList :=
      (Text.isTrim_lower_iff.mp tidy.trim).trim_eq
    have lower : Text.lower n.toList = ['*'] := star
    simp [resolve?, trimmed, lower]
  · have star : key ≠ ['*'] := by
      rw [any]
      exact fun same => by cases (List.cons.inj same).1
    have behind : (Text.dropPrefix? "any ".toList key).getD key = rest := by
      rw [any, Text.dropPrefix?_append, Option.getD_some]
    refine ⟨fun es' known' => answer (listed known') star ?_, fun unknown whole => ?_⟩
    · rw [alias?, behind, items?, known']
      rfl
    · have nothing : c.alias? key = none := by
        rw [alias?, behind, items?, unknown, whole]
        rfl
      rw [uncut.resolve? tidy star, uncut.quantified? tidy.ne_nil, nothing]

theorem resolve?_of_registered_rocks :
    let p : Platform := ⟨⟨[1, 20, 4]⟩, false,
      [⟨"minecraft:stone", true, 0⟩, ⟨"minecraft:dirt", true, 0⟩], []⟩
    let l := (Loader.start (.empty p) []).text none
      "s:\n  Stone Block = stone\n  any stone block = dirt\n  * = dirt\n"
    let c := Context.ofRegistry l.registry
    (∃ es, c.registry.entries? "STONE block" = some es ∧
      c.resolve? "STONE block" = some (.ofItems (es.map Entry.item)) ∧
      c.resolve? "any stone block" = some (.ofItems (es.map Entry.item))) ∧
    c.resolve? "*" = some .everything := by
  intro p l c
  have same : c.registry = l.registry := registry_ofRegistry _
  have loaded : c.registry.Loaded := by
    rw [same]
    exact .text (l := .start (.empty p) []) (.empty p) none _
  have known : ∀ n ∈ ["STONE block", "any stone block", "*"],
      (c.registry.entries? n).isSome ∧ IsUncut (Text.lower n.toList) := by decide +kernel
  simp only [List.mem_cons, List.not_mem_nil, or_false, forall_eq_or_imp, forall_eq,
    Option.isSome_iff_exists] at known
  obtain ⟨⟨⟨es, rock⟩, uncut⟩, ⟨⟨_, any⟩, uncut'⟩, ⟨_, star⟩, uncut''⟩ := known
  have small : c.registry.entries? "stone block" = some es := by
    have lower : Text.lowercase "STONE block" = "stone block" := by decide +kernel
    rw [← rock, ← lower, Registry.entries?_lowercase]
  have behind := (resolve?_of_registered c loaded any uncut').2.2 "stone block".toList
    (by decide +kernel)
  refine ⟨⟨es, rock, ?_, behind.1 es small⟩, ?_⟩
  · exact (resolve?_of_registered c loaded rock uncut).1 (by decide +kernel) (by decide +kernel)
  · exact (resolve?_of_registered c loaded star uncut'').2.1 (by decide +kernel)

theorem exists_resolve?_ne_of_registered :
    let p : Platform := ⟨⟨[1, 20, 4]⟩, false,
      [⟨"minecraft:stone", true, 0⟩, ⟨"minecraft:dirt", true, 0⟩], []⟩
    let l := (Loader.start (.empty p) []).text none
      "s:\n  stone = stone\n  any stone = dirt\n  every stone = dirt\n  * = dirt\n"
    let c := Context.ofRegistry l.registry
    c.registry.Loaded ∧ ∀ n ∈ ["any stone", "Every stone", "*"], IsUncut n.toList ∧
      ∃ s es, c.registry.entries? n = some es ∧ c.resolve? n = some s ∧
        s.types ≠ es.map Entry.item := by
  intro p l c
  have same : c.registry = l.registry := registry_ofRegistry _
  refine ⟨?_, fun n hn => ?_⟩
  · rw [same]
    exact .text (l := .start (.empty p) []) (.empty p) none _
  have facts : ∀ n ∈ ["any stone", "Every stone", "*"], IsUncut n.toList ∧ (c.registry.entries? n).isSome ∧
      (c.resolve? n).isSome ∧
      (c.resolve? n).map (fun s => s.types.map Item.material) ≠
        (c.registry.entries? n).map (fun es => (es.map Entry.item).map Item.material) := by
    decide +kernel
  obtain ⟨uncut, known, resolved, materials⟩ := facts n hn
  obtain ⟨es, known⟩ := Option.isSome_iff_exists.mp known
  obtain ⟨s, resolved⟩ := Option.isSome_iff_exists.mp resolved
  refine ⟨uncut, s, es, known, resolved, fun equal => materials ?_⟩
  rw [known, resolved, Option.map_some, Option.map_some, equal]

end Context

end ItemLexicon
