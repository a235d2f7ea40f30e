import SchemaEditor.Proofs.Snapshot.Load
import SchemaEditor.Proofs.Snapshot.Settling

/-!
# Loaded snapshots are faithful

When all declared nodes were read and all references settled, the model with its table of keys is
what the snapshot declares. The nodes are numbered as they are declared, with the built-in types
behind them, so that everything about a key is read off its position.
-/

namespace SchemaEditor.Snapshot

open Model (Layered Nested)
open Outcome (bind_eq_ok_iff)

variable {l : Loader} {ls : List SchemaEditor.Library} {ds bs : List Declaration}
variable {done : List Pending} {keys : Keys} {key : String} {id : NodeId} {n : Node}

/-! ### Keys and positions -/

/-- If only one key means a node, that key is found for it. -/
theorem Keys.keyOf?_eq (hk : keys[key]? = some id)
    (hunique : ∀ key' : String, keys[key']? = some id → key' = key) :
    keys.keyOf? id = some key := by
  have hsome : (keys.toList.find? fun e => e.2 = id).isSome = true := by
    rw [List.find?_isSome]
    exact ⟨(key, id), Std.TreeMap.mem_toList_iff_getElem?_eq_some.mpr hk, by simp⟩
  obtain ⟨⟨key', id'⟩, he⟩ := Option.isSome_iff_exists.mp hsome
  have hfound := Std.TreeMap.mem_toList_iff_getElem?_eq_some.mp (List.mem_of_find?_eq_some he)
  have hid := List.find?_some he
  simp only [decide_eq_true_eq] at hid
  subst hid
  rw [Keys.keyOf?, he, Option.map_some, hunique key' hfound]

namespace Keys.Lists

theorem lt_length (h : keys.Lists ds) (hk : keys[key]? = some id) : id.index < ds.length := by
  have hi := (List.getElem?_eq_some_iff.mp ((h key id).mp hk)).1
  rwa [List.length_map] at hi

theorem exists_declaration (h : keys.Lists ds) (hk : keys[key]? = some id) :
    ∃ d, ds[id.index]? = some d ∧ d.key = key := by
  have hi := (h key id).mp hk
  rw [List.getElem?_map] at hi
  exact Option.map_eq_some_iff.mp hi

/-- Two keys of one node are the same. -/
theorem unique (h : keys.Lists ds) {key' : String} (hk : keys[key]? = some id)
    (hk' : keys[key']? = some id) : key' = key :=
  Option.some.inj (((h key' id).mp hk').symm.trans ((h key id).mp hk))

/-- The keys that come behind the first declarations are none of theirs. -/
theorem undeclared_iff (h : keys.Lists (ds ++ bs)) (hk : keys[key]? = some id) :
    (∀ d ∈ ds, d.key ≠ key) ↔ ds.length ≤ id.index := by
  constructor
  · intro hnot
    by_contra hlt
    obtain ⟨d, hd, hkey⟩ := h.exists_declaration hk
    rw [List.getElem?_append_left (Nat.lt_of_not_le hlt)] at hd
    exact hnot d (List.mem_of_getElem? hd) hkey
  · rintro hle d hd rfl
    obtain ⟨i, hi⟩ := List.mem_iff_getElem?.mp hd
    have hlt := (List.getElem?_eq_some_iff.mp hi).1
    have hk' := h.getElem?_key ((List.getElem?_append_left hlt).trans hi)
    obtain rfl := Option.some.inj (hk.symm.trans hk')
    exact absurd hlt (Nat.not_lt_of_le hle)

end Keys.Lists

/-! ### What was settled -/

namespace Settled

theorem exists_key (h : Settled l ls ds bs done) (hn : l.builder.model.node? id = some n) :
    ∃ key : String, l.keys[key]? = some id := by
  have hlt := Model.lt_of_node? hn
  rw [h.stocked.size] at hlt
  exact ⟨_, h.stocked.keys.getElem?_key (List.getElem?_eq_getElem hlt)⟩

theorem exists_node (h : Settled l ls ds bs done) (hk : l.keys[key]? = some id) :
    ∃ n, l.builder.model.node? id = some n := by
  apply Model.exists_node?
  rw [h.stocked.size]
  exact h.stocked.keys.lt_length hk

/-- The library of built-in types lists the nodes behind the declared ones. -/
theorem mem_builtinShelf (h : Settled l ls ds bs done) :
    id ∈ (builtinShelf ds bs).members ↔
      ∃ key : String, l.keys[key]? = some id ∧ ∀ d ∈ ds, d.key ≠ key := by
  have hshelf : id ∈ (builtinShelf ds bs).members ↔
      ds.length ≤ id.index ∧ id.index < (ds ++ bs).length := by
    simp only [builtinShelf, List.mem_map, List.mem_range'_1, List.length_append]
    exact ⟨by rintro ⟨i, hi, rfl⟩; exact hi, fun hi => ⟨id.index, hi, rfl⟩⟩
  rw [hshelf]
  constructor
  · rintro ⟨hle, hlt⟩
    have hk := h.stocked.keys.getElem?_key (List.getElem?_eq_getElem hlt)
    exact ⟨_, hk, (h.stocked.keys.undeclared_iff hk).mpr hle⟩
  · rintro ⟨key, hk, hnot⟩
    exact ⟨(h.stocked.keys.undeclared_iff hk).mp hnot, h.stocked.keys.lt_length hk⟩

variable (h : Settled l ls ds bs done) (hdone : ∀ p, p ∈ done ↔ Asked ds p)
include h hdone

/-- A declared node is what its declaration says. -/
theorem declared {d : Declaration} (hd : d ∈ ds) :
    ∃ id n, l.keys[d.key]? = some id ∧ l.builder.model.node? id = some n ∧ n.kind = d.kind ∧
      n.name = d.name ∧ ∀ t : Target, l.keys.Means (d.text t) (t.reference n) := by
  obtain ⟨i, hi⟩ := List.mem_iff_getElem?.mp hd
  have hi' : (ds ++ bs)[i]? = some d :=
    (List.getElem?_append_left (List.getElem?_eq_some_iff.mp hi).1).trans hi
  obtain ⟨n, hn, hkind, hname⟩ := h.stocked.bears i d hi'
  refine ⟨⟨i⟩, n, h.stocked.keys.getElem?_key hi', hn, hkind, hname, fun t => ?_⟩
  have hasked {key : String} : ⟨⟨i⟩, t, key⟩ ∈ done ↔ d.text t = some key := by
    simp [hdone, Asked, hi]
  unfold Keys.Means
  split
  · next key ht =>
    obtain ⟨provider, hp⟩ := h.resolved _ (hasked.mpr ht)
    exact ⟨provider, hp, (h.references _ n hn t provider).mpr ⟨key, hasked.mpr ht, hp⟩⟩
  · next ht =>
    refine Option.eq_none_iff_forall_ne_some.mpr fun provider hp => ?_
    obtain ⟨key, hkey, -⟩ := (h.references _ n hn t provider).mp hp
    cases ht.symm.trans (hasked.mp hkey)

/-- A text that is no declared key was entered when it was met. -/
theorem undeclared_of_foreign (hforeign : Foreign ds key) :
    ∃ id, l.keys[key]? = some id ∧ ds.length ≤ id.index := by
  obtain ⟨⟨d, hd, t, ht⟩, hnot⟩ := hforeign
  obtain ⟨i, hi⟩ := List.mem_iff_getElem?.mp hd
  obtain ⟨id, hk⟩ := h.resolved ⟨⟨i⟩, t, key⟩ ((hdone _).mpr ⟨d, hi, ht⟩)
  exact ⟨id, hk, (h.stocked.keys.undeclared_iff hk).mp hnot⟩

/-- A node behind the declared ones is a built-in type that some text means. -/
theorem builtin (hk : l.keys[key]? = some id) (hn : l.builder.model.node? id = some n)
    (hle : ds.length ≤ id.index) :
    Foreign ds key ∧ n.kind = .member .xsdSimple ∧ builtinName? key = some n.name ∧
      ∀ t : Target, t.reference n = none := by
  obtain ⟨b, hb, rfl⟩ := h.stocked.keys.exists_declaration hk
  obtain ⟨n', hn', hkind, hname⟩ := h.stocked.bears _ b hb
  obtain rfl := Option.some.inj (hn.symm.trans hn')
  rw [List.getElem?_append_right hle] at hb
  have hmem := List.mem_of_getElem? hb
  obtain ⟨hxsd, hbuiltin⟩ := h.stocked.builtin b hmem
  obtain ⟨p, hp, hpkey⟩ := h.wanted b hmem
  obtain ⟨d, hd, ht⟩ := (hdone p).mp hp
  refine ⟨⟨⟨d, List.mem_of_getElem? hd, p.target, hpkey ▸ ht⟩, ?_⟩, hkind.trans hxsd, ?_, ?_⟩
  · exact (h.stocked.keys.undeclared_iff hk).mpr hle
  · rw [hbuiltin, hname]
  · intro t
    refine Option.eq_none_iff_forall_ne_some.mpr fun provider hprovider => ?_
    obtain ⟨key, hkey, -⟩ := (h.references id n hn t provider).mp hprovider
    have hlt : id.index < ds.length := ((hdone _).mp hkey).lt_length
    omega

/-- The library of built-in types is there if some text means one. -/
theorem shelf : (bs = [] ∧ (∀ key, ¬ Foreign ds key) ∧ l.builder.model.libraries.toList = ls) ∨
    (∃ key, Foreign ds key) ∧ l.builder.model.libraries.toList = ls ++ [builtinShelf ds bs] := by
  obtain ⟨rfl, -, hlibraries⟩ | ⟨hne, -, hlibraries⟩ := h.stocked.shelf
  · refine .inl ⟨rfl, fun key hforeign => ?_, hlibraries⟩
    obtain ⟨id, hk, hle⟩ := h.undeclared_of_foreign hdone hforeign
    have hlt := h.stocked.keys.lt_length hk
    rw [List.append_nil] at hlt
    omega
  · refine .inr ⟨?_, hlibraries⟩
    obtain ⟨b, bs, rfl⟩ := List.exists_cons_of_ne_nil hne
    have hb : (ds ++ b :: bs)[ds.length]? = some b := by simp
    have hk := h.stocked.keys.getElem?_key hb
    obtain ⟨n, hn⟩ := h.exists_node hk
    exact ⟨b.key, (h.builtin hdone hk hn (Nat.le_refl _)).1⟩

end Settled

/-! ### Loaded snapshots -/

theorem exists_settled {s : Snapshot} {loaded : Loaded} (h : s.load = .ok loaded) :
    ∃ l bs done, loaded = ⟨l.builder.model, l.keys⟩ ∧
      Settled l (s.libraries.map (·.loaded l.keys)) s.declarations bs done ∧
      ∀ p, p ∈ done ↔ Asked s.declarations p := by
  obtain ⟨l₁, hlibraries, h⟩ := bind_eq_ok_iff.mp h
  obtain ⟨l₂, hpending, h⟩ := bind_eq_ok_iff.mp h
  obtain rfl := Except.ok.inj h
  have h₁ := Reads.snapshot hlibraries
  have hasked (p : Pending) : p ∈ l₁.pending ↔ Asked s.declarations p := by
    simpa [Asked] using h₁.pending p
  obtain ⟨bs, h₂⟩ := (Settled.start h₁).each (fun p => (hasked p).mp) hpending
  have hkept : ∀ lib ∈ s.libraries, lib.loaded l₂.keys = lib.loaded l₁.keys := by
    refine fun lib hlib => Library.loaded_congr fun m hm => ?_
    have hm : m.declaration ∈ s.declarations := by
      refine List.mem_flatMap.mpr ⟨lib, hlib, List.mem_flatMap.mpr ⟨m, hm, ?_⟩⟩
      exact List.mem_cons_self
    obtain ⟨i, hi⟩ := List.mem_iff_getElem?.mp hm
    have hk := h₁.keys.getElem?_key hi
    exact (h₁.stocked.key_kept h₂.stocked hk).trans hk.symm
  rw [← List.map_congr_left hkept] at h₂
  exact ⟨l₂, bs, l₁.pending, rfl, h₂, hasked⟩

theorem layered_of_load {s : Snapshot} {loaded : Loaded} (h : s.load = .ok loaded) :
    Layered loaded.model := by
  obtain ⟨l, bs, done, rfl, hsettled, -⟩ := exists_settled h
  exact hsettled.stocked.layered

theorem nested_of_load {s : Snapshot} {loaded : Loaded} (h : s.load = .ok loaded) :
    Nested loaded.model := by
  obtain ⟨l, bs, done, rfl, hsettled, -⟩ := exists_settled h
  exact hsettled.stocked.nested

/-- A node has a type only if one is declared. -/
theorem exists_typed_of_load {s : Snapshot} {loaded : Loaded} (h : s.load = .ok loaded)
    {id p : NodeId} {n : Node} (hn : loaded.model.node? id = some n) (hp : n.typeRef = some p) :
    ∃ d ∈ s.declarations, d.typeKey ≠ none := by
  obtain ⟨l, bs, done, rfl, hsettled, hdone⟩ := exists_settled h
  obtain ⟨key, hkey, -⟩ := (hsettled.references id n hn .type p).mp hp
  obtain ⟨d, hd, htext⟩ := (hdone _).mp hkey
  refine ⟨d, List.mem_of_getElem? hd, fun hnone => ?_⟩
  cases hnone.symm.trans htext

/-- The table of keys of a loaded snapshot is a bijection, its libraries are those of the snapshot
and at most one of built-in types behind them, and its references are exactly those that the
snapshot asks for. -/
theorem faithful_of_load {s : Snapshot} {loaded : Loaded} (h : s.load = .ok loaded) :
    Faithful s loaded := by
  obtain ⟨l, bs, done, rfl, h, hdone⟩ := exists_settled h
  have unique {key key' : String} {id : NodeId} (hk : l.keys[key]? = some id)
      (hk' : l.keys[key']? = some id) : key' = key := h.stocked.keys.unique hk hk'
  constructor
  case named =>
    intro id n hn
    obtain ⟨key, hk⟩ := h.exists_key hn
    exact ⟨key, hk, fun _ hk' => unique hk hk'⟩
  case node => exact fun key id hk => h.exists_node hk
  case keyOf => exact fun key id hk => Keys.keyOf?_eq hk fun _ hk' => unique hk hk'
  case declared => exact fun d hd => h.declared hdone hd
  case builtin =>
    intro key id n hk hn hnot
    exact h.builtin hdone hk hn ((h.stocked.keys.undeclared_iff hk).mp hnot)
  case libraries =>
    intro hnone
    obtain ⟨-, -, hlibraries⟩ | ⟨⟨key, hforeign⟩, -⟩ := h.shelf hdone
    · exact hlibraries
    · exact absurd hforeign (hnone key)
  case builtinLibrary =>
    rintro ⟨key, hforeign⟩
    obtain ⟨-, hnone, -⟩ | ⟨-, hlibraries⟩ := h.shelf hdone
    · exact absurd hforeign (hnone key)
    · refine ⟨_, hlibraries, ?_, fun id => ?_⟩
      · exact List.Nodup.map (fun i j hij => congrArg NodeId.index hij) List.nodup_range'
      · exact h.mem_builtinShelf

/-- Only members are declared with a text for what they contribute to. -/
theorem exists_member_of_contributesTo {s : Snapshot} {d : Declaration} (hd : d ∈ s.declarations)
    (hc : d.contributesTo ≠ none) :
    ∃ lib ∈ s.libraries, ∃ m ∈ lib.members, d = m.declaration := by
  obtain ⟨lib, hlib, hd⟩ := List.mem_flatMap.mp hd
  obtain ⟨m, hm, hd⟩ := List.mem_flatMap.mp hd
  refine ⟨lib, hlib, m, hm, ?_⟩
  obtain rfl | hd := List.mem_cons.mp hd
  · rfl
  · refine absurd ?_ hc
    simp only [Member.parts, Action.declarations, sectionDeclarations, List.mem_append,
      List.mem_map, List.mem_flatMap, List.mem_cons, List.not_mem_nil, or_false] at hd
    obtain ((((⟨_, -, rfl⟩ | ⟨_, -, _, -, rfl⟩) | ⟨_, -, rfl⟩) | ⟨_, -, rfl⟩) | ⟨_, -, rfl⟩) |
      ⟨_, -, rfl | rfl | rfl⟩ := hd <;> rfl

/-- The node of a declared member is listed by a library. -/
theorem Faithful.listed_of_member {s : Snapshot} {loaded : Loaded} (h : Faithful s loaded)
    {lib : Library} {m : Member} (hlib : lib ∈ s.libraries) (hm : m ∈ lib.members)
    (hk : loaded.keys[m.effectiveKey]? = some id) :
    ∃ lib' l, loaded.model.library? lib' = some l ∧ id ∈ l.members := by
  have hshelf : ∃ more, loaded.model.libraries.toList =
      s.libraries.map (·.loaded loaded.keys) ++ more := by
    by_cases hforeign : ∃ key, Foreign s.declarations key
    · obtain ⟨members, hlibraries, -⟩ := h.builtinLibrary hforeign
      exact ⟨_, hlibraries⟩
    · refine ⟨[], ?_⟩
      rw [List.append_nil]
      exact h.libraries fun key hkey => hforeign ⟨key, hkey⟩
  obtain ⟨more, hlibraries⟩ := hshelf
  have hmem : lib.loaded loaded.keys ∈ loaded.model.libraries.toList := by
    rw [hlibraries]
    exact List.mem_append_left _ (List.mem_map_of_mem hlib)
  obtain ⟨i, hi⟩ := List.mem_iff_getElem?.mp hmem
  refine ⟨⟨i⟩, lib.loaded loaded.keys, ?_, List.mem_filterMap.mpr ⟨m, hm, hk⟩⟩
  rwa [Model.library?, ← Array.getElem?_toList]

/-- In the model of a snapshot only members contribute. -/
theorem owner_eq_none_of_contributesTo {s : Snapshot} {loaded : Loaded} (h : s.load = .ok loaded)
    (hn : loaded.model.node? id = some n) (hc : n.contributesTo ≠ none) : n.owner = none := by
  have hfaithful := faithful_of_load h
  obtain ⟨key, hk, -⟩ := hfaithful.named id n hn
  by_cases hdeclared : ∃ d ∈ s.declarations, d.key = key
  · obtain ⟨d, hd, rfl⟩ := hdeclared
    obtain ⟨id', n', hk', hn', -, -, hmeans⟩ := hfaithful.declared d hd
    obtain rfl := Option.some.inj (hk.symm.trans hk')
    obtain rfl := Option.some.inj (hn.symm.trans hn')
    have htext : d.contributesTo ≠ none := by
      intro hnone
      have hunset := hmeans .contribution
      rw [Declaration.text, hnone] at hunset
      exact hc hunset
    obtain ⟨lib, hlib, m, hm, rfl⟩ := exists_member_of_contributesTo hd htext
    obtain ⟨lib', l, hl, hmem⟩ := hfaithful.listed_of_member hlib hm hk
    obtain ⟨_, hn', ho, -⟩ := (whole_of_load h).shelved.member hl hmem
    exact Option.some.inj (hn.symm.trans hn') ▸ ho
  · push Not at hdeclared
    obtain ⟨-, -, -, hunset⟩ := hfaithful.builtin key id n hk hn hdeclared
    exact absurd (hunset .contribution) hc

/-- An order whose amount is of a type that comes later, and whose code is of a built-in type. -/
def orders : Snapshot :=
  shop
    [.object "Order" none
      [⟨.property .elementRef, "amount", some "Money", true, ""⟩,
        ⟨.property .plainAttribute, "code", some "xsd:string", true, ""⟩],
    .object "Money" none []]

theorem faithful_orders : ∃ loaded, orders.load = .ok loaded ∧
    (loaded.keys["Money"]? = some ⟨6⟩ ∧ loaded.keys["xsd:string"]? = some ⟨10⟩) ∧
    Faithful orders loaded := by
  obtain ⟨loaded, h, hp⟩ := exists_loaded (s := orders)
    (p := fun loaded => decide (loaded.keys["Money"]? = some ⟨6⟩ ∧
      loaded.keys["xsd:string"]? = some ⟨10⟩)) (by decide +kernel)
  exact ⟨loaded, h, of_decide_eq_true hp, faithful_of_load h⟩

end SchemaEditor.Snapshot
