import ItemLexicon.Lexicon
import ItemLexicon.Proofs.Coverage
import ItemLexicon.Proofs.NameLookups

/-! A session: the lexicon with the script registries that have been made over what it had published
by then.  A script registry keeps that snapshot, so what is published later never gets below it. -/

namespace ItemLexicon

namespace Registry

theorem run_append (r : Registry) (ops ops' : List Operation) :
    r.run (ops ++ ops') = (r.run ops).run ops' := List.foldl_append ..

theorem registerAll_eq_run (r : Registry) (cs : List Registration) :
    r.registerAll cs = r.run (cs.map .register) := by
  rw [run, List.foldl_map]
  rfl

theorem exists_run_of_serve (r : Registry) (qs : List Request) :
    ∃ ops, qs.foldl serve r = r.run ops := by
  induction qs generalizing r with
  | nil => exact ⟨[], rfl⟩
  | cons q qs ih =>
    obtain ⟨ops, rest⟩ := ih (r.serve q)
    cases q with
    | group name g => exact ⟨.group name g :: ops, rest⟩
    | define pattern data =>
      let asked := (Request.define pattern data).registrations r.group?
      refine ⟨asked.map .register ++ ops, ?_⟩
      rw [List.foldl_cons, rest, run_append, serve, registerAll_eq_run]

end Registry

def Scope.NoneKnows (xs : List Scope) (s : List Char) : Prop :=
  ∀ part, part <:+: s → ∀ x ∈ xs, x.entries? (Text.lowercase (String.ofList part)) = none

namespace Registry

variable {t g : Registry} {own : List Scope}

/-- The registry looks into some scopes of its own and then into those of another one. -/
structure Over (t g : Registry) (own : List Scope) : Prop where
  platform : t.platform = g.platform
  ne_nil : own ≠ []
  scopes : t.scopes = own ++ g.scopes

namespace Over

theorem of_layer (g : Registry) : g.layer.Over g [.empty g.scope.nextSerial] :=
  ⟨rfl, List.cons_ne_nil _ _, rfl⟩

theorem layer (h : t.Over g own) : t.layer.Over g (.empty t.scope.nextSerial :: own) where
  platform := h.platform
  ne_nil := List.cons_ne_nil _ _
  scopes := congrArg _ h.scopes

theorem run (h : t.Over g own) (ops : List Operation) : ∃ own', (t.run ops).Over g own' := by
  obtain ⟨x, rest, rfl⟩ := List.exists_cons_of_ne_nil h.ne_nil
  refine ⟨(t.run ops).scope :: rest, (run_platform t ops).trans h.platform,
    List.cons_ne_nil _ _, ?_⟩
  have parents := (List.cons.inj h.scopes).2
  rw [Registry.scopes, run_parents, parents]
  rfl

theorem entries? (h : t.Over g own) {name : String}
    (unknown : ∀ x ∈ own, x.entries? (Text.lowercase name) = none) :
    t.entries? name = g.entries? name := by
  have nothing : own.findSome? (fun x => x.entries? (Text.lowercase name)) = none :=
    List.findSome?_eq_none_iff.mpr unknown
  rw [Registry.entries?, h.scopes, List.findSome?_append, nothing, Option.none_or]
  rfl

theorem alike (h : t.Over g own) {current : Registry} (same : current.platform = t.platform)
    {s : List Char} (unknown : Scope.NoneKnows own s) :
    Context.Alike ⟨some t, current⟩ (.ofRegistry g) s where
  platform := same.trans h.platform
  items := by
    intro part hp
    exact congrArg _ (h.entries? (unknown part hp))

end Over

theorem alike_empty {current : Registry} {s : List Char}
    (unknown : Scope.NoneKnows t.scopes s) :
    Context.Alike ⟨some t, current⟩ (.ofRegistry (.empty current.platform)) s where
  platform := rfl
  items := by
    intro part hp
    have nothing : t.entries? (String.ofList part) = none :=
      List.findSome?_eq_none_iff.mpr (unknown part hp)
    rw [Context.items?, Context.registry, Option.getD_some, nothing]
    rfl

end Registry

namespace Loader

def Changes (l l' : Loader) : Prop := ∃ ops, l'.registry = l.registry.run ops

namespace Changes

variable {l l' l'' : Loader}

theorem refl (l : Loader) : l.Changes l := ⟨[], rfl⟩

theorem trans (h : l.Changes l') (h' : l'.Changes l'') : l.Changes l'' := by
  obtain ⟨ops, first⟩ := h
  obtain ⟨ops', second⟩ := h'
  exact ⟨ops ++ ops', by rw [second, first, Registry.run_append]⟩

theorem of_serves {qs : List Request} (h : l.Serves qs l') : l.Changes l' := by
  obtain ⟨ops, served⟩ := l.registry.exists_run_of_serve qs
  exact ⟨ops, h.registry.trans served⟩

theorem sources (l : Loader) (ss : List Source) : l.Changes (l.sources ss).2 := by
  induction ss generalizing l with
  | nil => exact .refl l
  | cons s ss ih =>
    rw [Loader.sources]
    split
    · rename_i text _
      exact (of_serves (.text l (some s.name) text)).trans (ih _)
    · exact .refl l

theorem file (l : Loader) (root : FileTree) (path : String) : l.Changes (l.file root path).2 := by
  rw [Loader.file]
  split
  · exact .refl l
  · exact sources l _

theorem directory (l : Loader) (root : FileTree) (path : String) :
    l.Changes (l.directory root path).2 := by
  rw [Loader.directory]
  split
  · exact sources l _
  · exact .refl l

theorem archiveBytes (l : Loader) (bs : List UInt8) : l.Changes (l.archiveBytes bs).2 := by
  rw [Loader.archiveBytes]
  split
  · exact .refl l
  · exact sources l _

theorem archive (l : Loader) (root : FileTree) (path : String) :
    l.Changes (l.archive root path).2 := by
  rw [Loader.archive]
  split
  · exact .refl l
  · exact sources l _
  · exact archiveBytes l _

theorem addMissing (l : Loader) : l.Changes l.addMissing :=
  ⟨_, (registry_addMissing l).trans (Registry.registerAll_eq_run ..)⟩

end Changes

end Loader

inductive Load
  | text (source : Option String) (content : String)
  | nodes (source : Option String) (ns : List Outline.Node)
  | file (root : FileTree) (path : String)
  | directory (root : FileTree) (path : String)
  | archive (root : FileTree) (path : String)
  | archiveBytes (bs : List UInt8)
  | missing

namespace Load

def run (l : Loader) : Load → Option Failure × Loader
  | .text source content => (none, l.text source content)
  | .nodes source ns => (none, l.nodes source ns)
  | .file root path => l.file root path
  | .directory root path => l.directory root path
  | .archive root path => l.archive root path
  | .archiveBytes bs => l.archiveBytes bs
  | .missing => (none, l.addMissing)

theorem changes_run (l : Loader) (x : Load) : l.Changes (x.run l).2 := by
  cases x with
  | text source content => exact .of_serves (.text l source content)
  | nodes source ns => exact .of_serves (.nodes source l ns)
  | file root path => exact .file l root path
  | directory root path => exact .directory l root path
  | archive root path => exact .archive l root path
  | archiveBytes bs => exact .archiveBytes l bs
  | missing => exact .addMissing l

end Load

namespace Lexicon

variable {x y : Lexicon} {ds : List Diagnostic}

theorem registry_of_publish {outcome : Option Failure × Loader}
    (h : x.publish outcome = .ok (ds, y)) : y.registry = outcome.2.registry := by
  obtain ⟨failure, l⟩ := outcome
  cases failure with
  | none =>
    cases h
    rfl
  | some failure => cases h

theorem changes_defaults (x : Lexicon) (root : FileTree) (l : Loader) :
    l.Changes (x.defaults root l).2 := by
  have supplemented : ∀ outcome : Option Failure × Loader, l.Changes outcome.2 →
      l.Changes (if outcome.1.isNone && x.settings.missingAliases
        then (none, outcome.2.addMissing) else outcome).2 := by
    intro outcome loaded
    split
    · exact loaded.trans (.addMissing _)
    · exact loaded
  rw [defaults]
  split
  · exact .refl l
  · cases present? root x.settings.defaultArchive with
    | none => exact supplemented (none, l) (.refl l)
    | some path => exact supplemented _ (.archive l root path)

theorem changes_userFiles (x : Lexicon) (root : FileTree) (l : Loader) :
    l.Changes (x.userFiles root l).2 := by
  rw [userFiles]
  split
  · exact .directory l root _
  · exact .refl l

theorem exists_run_of_extend {a : Load} (h : x.extend a.run = .ok (ds, y)) :
    ∃ ops, y.registry = x.registry.run ops := by
  rw [registry_of_publish h]
  exact a.changes_run (x.loaderFor x.registry)

theorem exists_run_of_reload {root : FileTree} (h : x.reload root = .ok (ds, y)) :
    ∃ ops, y.registry = (Registry.empty x.platform).run ops := by
  rw [reload] at h
  have first := x.changes_defaults root (x.loaderFor (.empty x.platform))
  split at h
  · cases h
  · rename_i l loaded
    rw [registry_of_publish h]
    rw [loaded] at first
    exact first.trans (x.changes_userFiles root l)

end Lexicon

structure Session where
  lexicon : Lexicon
  scripts : List Registry

/-- Something done to the lexicon or to a script registry, which goes by its number. -/
inductive Command
  | condition (keyword : String) (holds : String → Bool)
  | load (x : Load)
  | reload (root : FileTree)
  | clear
  | script
  | scriptOver (n : Nat)
  | loadScript (n : Nat) (x : Load)
  | changeScript (n : Nat) (op : Operation)

namespace Session

variable {s : Session} {t : Registry} {p : Platform}

def start (p : Platform) (settings : Settings) : Session := ⟨.ofPlatform p settings, []⟩

def publish (s : Session) : Except Failure (List Diagnostic × Lexicon) → Session
  | .ok (_, x) => { s with lexicon := x }
  | .error _ => s

@[simp] theorem scripts_publish (s : Session) (e : Except Failure (List Diagnostic × Lexicon)) :
    (s.publish e).scripts = s.scripts := by cases e <;> rfl

def apply (s : Session) : Command → Session
  | .condition keyword holds => { s with lexicon := s.lexicon.register keyword holds }
  | .load x => s.publish (s.lexicon.extend x.run)
  | .reload root => s.publish (s.lexicon.reload root)
  | .clear => { s with lexicon := s.lexicon.clear }
  | .script => { s with scripts := s.scripts ++ [s.lexicon.scriptRegistry] }
  | .scriptOver n => { s with scripts := s.scripts ++ (s.scripts[n]?.map Registry.layer).toList }
  | .loadScript n x =>
    { s with scripts := s.scripts.modify n fun t => (x.run (s.lexicon.loaderFor t)).2.registry }
  | .changeScript n op => { s with scripts := s.scripts.modify n (·.apply op) }

def run (s : Session) (cs : List Command) : Session := cs.foldl apply s

theorem registry_apply (s : Session) (c : Command) :
    ∃ ops, (s.apply c).lexicon.registry = s.lexicon.registry.run ops ∨
      (s.apply c).lexicon.registry = (Registry.empty s.lexicon.platform).run ops := by
  cases c with
  | load x =>
    rw [apply]
    cases h : s.lexicon.extend x.run with
    | error failure => exact ⟨[], .inl rfl⟩
    | ok published =>
      obtain ⟨ops, changed⟩ := Lexicon.exists_run_of_extend h
      exact ⟨ops, .inl changed⟩
  | reload root =>
    rw [apply]
    cases h : s.lexicon.reload root with
    | error failure => exact ⟨[], .inl rfl⟩
    | ok published =>
      obtain ⟨ops, changed⟩ := Lexicon.exists_run_of_reload h
      exact ⟨ops, .inr changed⟩
  | clear => exact ⟨[], .inr rfl⟩
  | _ => exact ⟨[], .inl rfl⟩

def Publishes (p : Platform) (s : Session) : Prop :=
  s.lexicon.registry.Reachable ∧ s.lexicon.registry.platform = p

theorem Publishes.apply (h : s.Publishes p) (c : Command) : (s.apply c).Publishes p := by
  obtain ⟨ops, changed | anew⟩ := s.registry_apply c
  · exact ⟨changed ▸ h.1.run ops, by rw [changed, Registry.run_platform, h.2]⟩
  · exact ⟨anew ▸ (Registry.Reachable.empty _).run ops,
      by rw [anew, Registry.run_platform]; exact h.2⟩

theorem publishes_run (p : Platform) (settings : Settings) (cs : List Command) :
    ((start p settings).run cs).Publishes p := by
  induction cs using List.reverseRecOn with
  | nil => exact ⟨.empty p, rfl⟩
  | append_singleton cs c ih =>
    rw [run, List.foldl_concat]
    exact ih.apply c

/-- The script registries of a session after a command. -/
inductive Makes (s : Session) : Registry → Prop
  | changed {t : Registry} (ht : t ∈ s.scripts) (ops : List Operation) : Makes s (t.run ops)
  | fresh : Makes s s.lexicon.registry.layer
  | above {t : Registry} (ht : t ∈ s.scripts) : Makes s t.layer

theorem makes_of_mem_modify {f : Registry → Registry} {n : Nat}
    (hf : ∀ t, ∃ ops, f t = t.run ops) (ht : t ∈ s.scripts.modify n f) : s.Makes t := by
  obtain ⟨k, hk⟩ := List.mem_iff_getElem?.mp ht
  rw [List.getElem?_modify] at hk
  obtain ⟨u, hu, rfl⟩ := Option.map_eq_some_iff.mp hk
  have mem : u ∈ s.scripts := List.mem_iff_getElem?.mpr ⟨k, hu⟩
  split
  · obtain ⟨ops, changed⟩ := hf u
    rw [changed]
    exact .changed mem ops
  · exact .changed mem []

theorem makes_of_mem_apply {c : Command} (ht : t ∈ (s.apply c).scripts) : s.Makes t := by
  have kept : t ∈ s.scripts → s.Makes t := fun ht => .changed ht []
  cases c with
  | condition => exact kept ht
  | load x =>
    rw [apply, scripts_publish] at ht
    exact kept ht
  | reload root =>
    rw [apply, scripts_publish] at ht
    exact kept ht
  | clear => exact kept ht
  | script =>
    rcases List.mem_append.mp ht with ht | ht
    · exact kept ht
    · rw [List.mem_singleton.mp ht]
      exact .fresh
  | scriptOver n =>
    rcases List.mem_append.mp ht with ht | ht
    · exact kept ht
    · obtain ⟨u, hu, rfl⟩ := Option.map_eq_some_iff.mp (Option.mem_toList.mp ht)
      exact .above (List.mem_of_getElem? hu)
  | loadScript n x =>
    exact makes_of_mem_modify (fun u => x.changes_run (s.lexicon.loaderFor u)) ht
  | changeScript n op => exact makes_of_mem_modify (fun u => ⟨[op], rfl⟩) ht

theorem exists_over {settings : Settings} {cs : List Command}
    (ht : t ∈ ((start p settings).run cs).scripts) : ∃ before after own, cs = before ++ after ∧
      t.Over ((start p settings).run before).lexicon.registry own := by
  induction cs using List.reverseRecOn generalizing t with
  | nil => cases ht
  | append_singleton cs c ih =>
    rw [run, List.foldl_concat] at ht
    cases makes_of_mem_apply ht with
    | @changed u hu ops =>
      obtain ⟨before, after, own, rfl, stands⟩ := ih hu
      obtain ⟨own', stands'⟩ := stands.run ops
      exact ⟨before, after ++ [c], own', List.append_assoc .., stands'⟩
    | fresh => exact ⟨cs, [c], _, rfl, .of_layer _⟩
    | above hu =>
      obtain ⟨before, after, own, rfl, stands⟩ := ih hu
      exact ⟨before, after ++ [c], _, List.append_assoc .., stands.layer⟩

/-- A script registry stands over what was published when the lowest one below it was made, so a
plain name that has been published since is not found. -/
theorem resolve?_of_script (p : Platform) (settings : Settings) (cs : List Command) {t : Registry}
    (ht : t ∈ ((start p settings).run cs).scripts) :
    let g := ((start p settings).run cs).lexicon.registry
    let c : Context := ⟨some t, g⟩
    (∃ before after own, cs = before ++ after ∧
      t.Over ((start p settings).run before).lexicon.registry own) ∧
    ∀ text, let name := Text.lower (Text.trim text.toList)
      c.resolve? text = (Context.ofRegistry t).resolve? text ∧
      (∀ below own, t.Over below own → Scope.NoneKnows own name →
        c.resolve? text = (Context.ofRegistry below).resolve? text) ∧
      (Scope.NoneKnows t.scopes name →
        c.resolve? text = (Context.ofRegistry (.empty p)).resolve? text) ∧
      (Context.IsPlain name → t.contains (String.ofList name) = false →
        ∀ es, g.entries? (String.ofList name) = some es → c.resolve? text = none ∧
          (Context.ofRegistry g).resolve? text = some (.ofItems (es.map Entry.item))) := by
  intro g c
  obtain ⟨reachable, platform⟩ : ((start p settings).run cs).Publishes p := publishes_run ..
  obtain ⟨before, after, own, parts, stands⟩ := exists_over ht
  have same : g.platform = t.platform := by
    rw [stands.platform, (publishes_run p settings before).2]
    exact platform
  refine ⟨⟨before, after, own, parts, stands⟩, fun text => ⟨?_, ?_, ?_, ?_⟩⟩
  · exact Context.Alike.resolve? ⟨same, fun _ _ => rfl⟩
  · exact fun below own stands unknown => (stands.alike same unknown).resolve?
  · intro unknown
    rw [← platform]
    exact (Registry.alike_empty unknown).resolve?
  · intro plain unknown es known
    have absent : c.items? (Text.lower (Text.trim text.toList)) = none := by
      rw [Registry.contains, Option.isSome_eq_false_iff, Option.isNone_iff_eq_none] at unknown
      exact congrArg _ unknown
    have present : (Context.ofRegistry g).items? (Text.lower (Text.trim text.toList)) =
        some (es.map Entry.item) := congrArg _ known
    have ne : es.map Entry.item ≠ [] := by
      rw [Ne, List.map_eq_nil_iff]
      exact reachable.bound.ne_nil known
    exact ⟨plain.resolve?_eq_none absent, plain.resolve?_eq_some ne present⟩

theorem resolve?_of_script_of_stone :
    let p : Platform := ⟨⟨[1, 20, 4]⟩, false, [⟨"minecraft:stone", true, 0⟩], []⟩
    let cs : List Command :=
      [.script, .load (.text none "rocks:\n  stone = minecraft:stone\n"), .script]
    let s := (start p .standard).run cs
    let g := s.lexicon.registry
    ∃ early late, early ∈ s.scripts ∧ late ∈ s.scripts ∧
      (Context.mk (some early) g).resolve? "stone" = none ∧
      (∃ items, (Context.ofRegistry g).resolve? "stone" = some (.ofItems items)) ∧
      ∀ text, (Context.mk (some late) g).resolve? text = (Context.ofRegistry g).resolve? text := by
  intro p cs s g
  have last : g.layer ∈ s.scripts := by
    exact List.mem_append_right _ List.mem_cons_self
  have first : s.scripts.head?.map (fun t => t.contains "stone") = some false := by decide +kernel
  have published : (g.entries? "stone").isSome := by decide +kernel
  have plain : Context.IsPlain (Text.lower (Text.trim "stone".toList)) :=
    ⟨by decide +kernel, by decide +kernel, by decide +kernel, by decide +kernel, by decide +kernel,
      by decide +kernel, by decide +kernel⟩
  obtain ⟨early, head, unknown⟩ := Option.map_eq_some_iff.mp first
  obtain ⟨es, known⟩ := Option.isSome_iff_exists.mp published
  have mem : early ∈ s.scripts := List.mem_of_head? head
  obtain ⟨-, names⟩ := resolve?_of_script p .standard cs mem
  obtain ⟨-, -, -, missed⟩ := names "stone"
  obtain ⟨nothing, something⟩ := missed plain unknown es known
  obtain ⟨-, names⟩ := resolve?_of_script p .standard cs last
  refine ⟨early, g.layer, mem, last, nothing, ⟨_, something⟩, fun text => ?_⟩
  obtain ⟨-, through, -⟩ := names text
  apply through g _ (.of_layer g)
  intro part _ x hx
  rw [List.mem_singleton.mp hx]
  rfl

theorem published_name_is_missed :
    let p : Platform := ⟨⟨[1, 20, 4]⟩, false, [⟨"minecraft:stone", true, 0⟩], []⟩
    let s := (start p .standard).run
      [.script, .load (.text none "rocks:\n  stone = minecraft:stone\n")]
    let g := s.lexicon.registry
    let materials (c : Context) : Option (List (Option Nat)) :=
      (c.resolve? "stone").map fun s => s.types.map Item.material
    g.contains "stone" = true ∧ materials (.ofRegistry g) = some [some 0] ∧
      s.scripts.map (fun t => (t.contains "stone", materials ⟨some t, g⟩)) = [(false, none)] := by
  decide +kernel

end Session

end ItemLexicon
