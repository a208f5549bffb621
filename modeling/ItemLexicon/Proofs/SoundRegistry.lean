import ItemLexicon.Proofs.Registration
import ItemLexicon.Proofs.SoundIndex

namespace ItemLexicon

theorem Registration.isDefined (c : Registration) (m : Nat) (info : MaterialInfo) :
    (c.item m info).IsDefined m info := .ofDefinition ..

namespace Scope

structure Sound (p : Platform) (below : List Entry) (s : Scope) : Prop where
  index : s.index.Sound p
  listed : ∀ e, s.Lists e → e ∈ s.index.entries ++ below

namespace Sound

variable {p : Platform} {below : List Entry} {s : Scope}

theorem empty (p : Platform) (below : List Entry) (n : Nat) : Sound p below (.empty n) where
  index := .empty p
  listed := by
    rintro e ⟨es, hes, -⟩
    cases hes

theorem mark (h : s.Sound p below) (m : Nat) : (s.mark m).Sound p below where
  index := by
    rw [mark_index]
    exact h.index
  listed := by
    intro e he
    rw [Lists, mark_selectors] at he
    rw [mark_index]
    exact h.listed e he

theorem bind (h : s.Sound p below) (name : AliasName) {es : List Entry}
    (hes : ∀ e ∈ es, e ∈ s.index.entries ++ below) : (s.bind name es).Sound p below where
  index := by
    rw [bind_index]
    exact h.index
  listed := by
    intro e he
    rw [bind_index]
    rcases lists_bind he with he | he
    · exact h.listed e he
    · exact hes e he

theorem enlarge (h : s.Sound p below) {ix : Index} (hx : ix.Sound p) (hg : s.index.Grows ix)
    (n : Nat) : Sound p below { s with index := ix, nextSerial := n } where
  index := hx
  listed := by
    intro e he
    rcases List.mem_append.mp (h.listed e he) with he | he
    · exact List.mem_append_left _ (hg.entries e he)
    · exact List.mem_append_right _ he

end Sound

/-- Every scope is sound over those behind it. -/
def SoundOver (p : Platform) : List Scope → Prop
  | [] => True
  | s :: below => s.Sound p (below.flatMap fun s => s.index.entries) ∧ SoundOver p below

theorem SoundOver.listed {p : Platform} {ss : List Scope} (h : SoundOver p ss) {s : Scope}
    (hs : s ∈ ss) {e : Entry} (he : s.Lists e) : e ∈ ss.flatMap fun s => s.index.entries := by
  induction ss with
  | nil => cases hs
  | cons t below ih =>
    rw [List.flatMap_cons]
    rcases List.mem_cons.mp hs with rfl | hs
    · exact h.1.listed e he
    · exact List.mem_append_right _ (ih h.2 hs)

theorem SoundOver.isDefined {p : Platform} {ss : List Scope} (h : SoundOver p ss) {e : Entry}
    (he : e ∈ ss.flatMap fun s => s.index.entries) : ∃ m info, e.item.IsDefined m info := by
  induction ss with
  | nil => cases he
  | cons s below ih =>
    rw [List.flatMap_cons, List.mem_append] at he
    rcases he with he | he
    · obtain ⟨m, b, -, hb, mem⟩ := h.1.index.mem_bucket he
      obtain ⟨info, -, defined⟩ := (h.1.index.buckets m b hb).defined e mem
      exact ⟨m, info, defined⟩
    · exact ih h.2 he

end Scope

namespace Registry

def Sound (r : Registry) : Prop := Scope.SoundOver r.platform r.scopes

namespace Sound

variable {r : Registry}

theorem empty (p : Platform) : (Registry.empty p).Sound := ⟨.empty p [] 0, trivial⟩

theorem layer (h : r.Sound) : r.layer.Sound := ⟨.empty .., h⟩

theorem scope (h : r.Sound) :
    r.scope.Sound r.platform (r.parents.flatMap fun s => s.index.entries) := h.1

theorem index (h : r.Sound) : r.scope.index.Sound r.platform := h.scope.index

theorem mem_numbered (h : r.Sound) {name : String} {es : List Entry}
    (hes : r.entries? name = some es) {e : Entry} (he : e ∈ es) : e ∈ r.numbered := by
  rw [entries?] at hes
  obtain ⟨s, hs, hes⟩ := List.exists_of_findSome?_eq_some hes
  exact h.listed hs (Scope.lists_of_entries? hes he)

theorem isDefined (h : r.Sound) {name : String} {es : List Entry}
    (hes : r.entries? name = some es) {e : Entry} (he : e ∈ es) :
    ∃ m info, e.item.IsDefined m info := Scope.SoundOver.isDefined h (h.mem_numbered hes he)

end Sound

namespace Outcome

variable {r : Registry} {c : Registration} {fault : Option Fault} {s : Scope}

theorem index_cases (o : Outcome r c fault s) :
    s.index = r.scope.index ∨
      ∃ m info, r.platform.material? c.id = some m ∧ r.platform.info? m = some info ∧
        r.equal? (c.item m info) = none ∧
        s.index = r.scope.index.add (c.entry r.scope.nextSerial m info) := by
  cases o with
  | reference => exact .inl (Scope.bind_index ..)
  | unknown => exact .inl rfl
  | refused => exact .inl (Scope.mark_index ..)
  | repeated => exact .inl ((Scope.bind_index ..).trans (Scope.mark_index ..))
  | fresh new material row accepted absent =>
    exact .inr ⟨_, _, material, row, absent, Scope.bind_index ..⟩

theorem grows (o : Outcome r c fault s) (h : r.Sound) : r.scope.index.Grows s.index := by
  rcases o.index_cases with same | ⟨m, info, -, row, absent, added⟩
  · rw [same]
    exact .refl _
  · rw [added]
    exact h.index.grows_add row (c.isDefined m info) absent

theorem sound (o : Outcome r c fault s) (h : r.Sound) :
    s.Sound r.platform (r.parents.flatMap fun s => s.index.entries) := by
  cases o with
  | reference known => exact h.scope.bind c.name fun e he => h.mem_numbered known he
  | unknown => exact h.scope
  | refused => exact h.scope.mark _
  | @repeated m info e new material row accepted found =>
    apply (h.scope.mark m).bind
    intro x hx
    rw [List.mem_singleton.mp hx, Scope.mark_index]
    exact List.mem_append_left _ (Index.mem_of_equal? found).1
  | @fresh m info new material row accepted absent =>
    have defined : (c.entry r.scope.nextSerial m info).item.IsDefined m info := c.isDefined m info
    have sound := h.index.add row defined absent
    have grows : (r.scope.mark m).index.Grows
        (r.scope.index.add (c.entry r.scope.nextSerial m info)) := by
      rw [Scope.mark_index]
      exact h.index.grows_add row defined absent
    apply ((h.scope.mark m).enlarge sound grows (r.scope.nextSerial + 1)).bind
    intro x hx
    rw [List.mem_singleton.mp hx]
    apply List.mem_append_left
    exact (h.index.entries_add row defined absent).mem_iff.mpr List.mem_cons_self

end Outcome

namespace Sound

variable {r : Registry}

theorem register (h : r.Sound) (c : Registration) : (r.register c).Sound := by
  obtain ⟨fault, o⟩ := exists_outcome_register r c
  rw [Sound, scopes, register_platform, register_parents]
  exact ⟨o.sound h, h.2⟩

theorem grows_register (h : r.Sound) (c : Registration) :
    r.scope.index.Grows (r.register c).scope.index := by
  obtain ⟨fault, o⟩ := exists_outcome_register r c
  exact o.grows h

end Sound

end Registry

end ItemLexicon
