import SchemaEditor.Proofs.Model.Chain
import SchemaEditor.Proofs.Snapshot.Members

/-!
# Resolving references

The second half of a load goes through the references that were noted. `Stocked` says what is there
at any time: the declared nodes, and behind them the built-in types met so far, under their keys.
`Settled` adds that exactly the references gone through are set, each to the node with its key.
-/

namespace SchemaEditor.Snapshot

open Model (Layered Nested)
open Outcome (bind_eq_ok_iff foldlM_collects)

variable {l l' : Loader} {ls : List SchemaEditor.Library} {ds bs : List Declaration}
variable {done : List Pending} {p : Pending} {node : NodeId} {key name : String}

theorem builtinName?_inj {key' : String} (h : builtinName? key = some name)
    (h' : builtinName? key' = some name) : key = key' := by
  have back {k : String} (hk : builtinName? k = some name) :
      k.toList = builtinMark ++ name.toList := by
    unfold builtinName? at hk
    split at hk
    · next hmark =>
      obtain rfl := Option.some.inj hk
      rw [String.toList_ofList]
      exact List.prefix_iff_eq_append.mp (List.isPrefixOf_iff_prefix.mp hmark) |>.symm
    · cases hk
  exact String.toList_inj.mp ((back h).trans (back h').symm)

/-! ### Writing a reference -/

/-- A node with one of its references set. -/
def Target.write (provider : NodeId) (n : Node) : Target → Node
  | .type => { n with typeRef := some provider }
  | .base => { n with base := some provider }
  | .contribution => { n with contributesTo := some provider }

theorem samePlace_write (t : Target) (provider : NodeId) (n : Node) :
    n.SamePlace (t.write provider n) := by
  cases t <;> exact ⟨rfl, rfl, rfl, rfl, rfl⟩

theorem name_write (t : Target) (provider : NodeId) (n : Node) :
    (t.write provider n).name = n.name := by
  cases t <;> rfl

theorem reference_write (s t : Target) (provider : NodeId) (n : Node) :
    s.reference (t.write provider n) = if s = t then some provider else s.reference n := by
  cases s <;> cases t <;> rfl

theorem settle_cases (h : l.settle p = .ok l') :
    ∃ node l₁, l.resolve p.key = .ok (node, l₁) ∧
      l' = l₁.refine p.node fun n => p.target.write node n := by
  obtain ⟨⟨node, l₁⟩, hr, hs⟩ := bind_eq_ok_iff.mp h
  refine ⟨node, l₁, hr, ?_⟩
  have updated {f : Node → Node} {b : Builder}
      (hf : l₁.builder.model.update p.node f = .ok b.model)
      (hb : b.builtins = l₁.builder.builtins) : { l₁ with builder := b } = l₁.refine p.node f := by
    obtain ⟨-, hm⟩ := Model.update_eq_ok_iff.mp hf
    obtain ⟨m, builtins⟩ := b
    obtain rfl : m = _ := hm
    obtain rfl : builtins = _ := hb
    rfl
  simp only at hs
  split at hs
  · next b hset =>
    obtain rfl := Except.ok.inj hs
    cases ht : p.target with
    | type =>
      rw [ht] at hset
      obtain ⟨-, hset, hb⟩ := Builder.model_of_assign hset
      exact updated hset hb
    | base =>
      rw [ht] at hset
      obtain ⟨-, hset, hb⟩ := Builder.model_of_extend hset
      exact updated hset hb
    | contribution =>
      rw [ht] at hset
      obtain ⟨hset, hb⟩ := Builder.model_of_contribute hset
      exact updated hset hb
  · cases hs

/-! ### Declared nodes and built-in types -/

/-- The node that a built-in type becomes when its key is met. -/
def builtinDeclaration (key name : String) : Declaration where
  key := key
  kind := .member .xsdSimple
  name := name

/-- The library of built-in types `bs` behind the declared nodes `ds`. -/
def builtinShelf (ds bs : List Declaration) : SchemaEditor.Library :=
  { Builder.builtinLibrary with members := (List.range' ds.length bs.length).map NodeId.mk }

/-- The nodes are those of the declarations `ds` and behind them the built-in types `bs`, all under
their keys; the latter are in a library behind the libraries `ls`. -/
structure Stocked (l : Loader) (ls : List SchemaEditor.Library) (ds bs : List Declaration) :
    Prop where
  size : l.builder.model.nodes.size = (ds ++ bs).length
  keys : l.keys.Lists (ds ++ bs)
  bears : ∀ i d, (ds ++ bs)[i]? = some d → Bears l.builder.model ⟨i⟩ d.kind d.name
  builtin : ∀ b ∈ bs, b.kind = .member .xsdSimple ∧ builtinName? b.key = some b.name
  shelf : bs = [] ∧ l.builder.builtins = none ∧ l.builder.model.libraries.toList = ls ∨
    bs ≠ [] ∧ l.builder.builtins = some ⟨ls.length⟩ ∧
      l.builder.model.libraries.toList = ls ++ [builtinShelf ds bs]
  layered : Layered l.builder.model
  nested : Nested l.builder.model

theorem Reads.stocked (h : Reads l ls ds [] 0) : Stocked l ls ds [] where
  size := by simpa using h.size
  keys := by simpa using h.keys
  bears := by simpa using h.bears
  builtin := fun _ hb => by cases hb
  shelf := .inl ⟨rfl, h.builtins, h.libraries⟩
  layered := h.layered
  nested := h.nested

namespace Stocked

/-- A key that was entered means the same node for ever. -/
theorem key_kept {more : List Declaration} (h : Stocked l ls ds bs)
    (h' : Stocked l' ls ds (bs ++ more)) (hk : l.keys[key]? = some node) :
    l'.keys[key]? = some node := by
  have hi := (h.keys key node).mp hk
  refine (h'.keys key node).mpr ?_
  rw [← List.append_assoc, List.map_append]
  exact (List.getElem?_append_left (List.getElem?_eq_some_iff.mp hi).1).trans hi

/-- The library of built-in types is there, but for the types. -/
theorem withBuiltins (h : Stocked l ls ds bs) :
    ∃ b, l.builder.withBuiltins = (⟨ls.length⟩, b) ∧ b.builtins = some ⟨ls.length⟩ ∧
      b.model.nodes = l.builder.model.nodes ∧
      b.model.libraries.toList = ls ++ [builtinShelf ds bs] := by
  obtain ⟨rfl, hnone, hlibraries⟩ | ⟨-, hsome, hlibraries⟩ := h.shelf
  · have hsize : l.builder.model.libraries.size = ls.length := by rw [← hlibraries]; rfl
    refine ⟨⟨(l.builder.model.addLibrary Builder.builtinLibrary).2, some ⟨ls.length⟩⟩, ?_, rfl,
      rfl, ?_⟩
    · rw [Builder.withBuiltins, hnone, ← hsize]
      rfl
    · rw [← hlibraries]
      exact Array.toList_push
  · refine ⟨l.builder, ?_, hsome, rfl, hlibraries⟩
    rw [Builder.withBuiltins, hsome]

/-- A built-in type whose key is not known is not in the library. -/
theorem findMember?_eq_none {m : Model} {library : LibraryId} (h : Stocked l ls ds bs)
    (hname : builtinName? key = some name) (hkey : l.keys[key]? = none)
    (hnodes : m.nodes = l.builder.model.nodes)
    (hlibrary : m.library? library = some (builtinShelf ds bs)) :
    m.findMember? library name = none := by
  rw [← Option.not_isSome_iff_eq_none, Model.isSome_findMember?_iff]
  rintro ⟨k, w, n, hk, hw, hn, -, rfl⟩
  obtain rfl := Option.some.inj (hlibrary.symm.trans hk)
  obtain ⟨i, hi, rfl⟩ := List.mem_map.mp hw
  obtain ⟨hle, hlt⟩ := List.mem_range'_1.mp hi
  obtain ⟨j, rfl⟩ := Nat.exists_eq_add_of_le hle
  have hj := List.getElem?_eq_getElem (l := bs) (i := j) (by omega)
  have hd : (ds ++ bs)[ds.length + j]? = some bs[j] := by
    rw [List.getElem?_append_right (by omega), Nat.add_sub_cancel_left, hj]
  -- A member that is found has this name, so it was entered under this key.
  obtain ⟨n', hn', -, hsame⟩ := h.bears _ _ hd
  rw [Model.node?, hnodes] at hn
  obtain rfl := Option.some.inj (hn.symm.trans hn')
  have hbuiltin := (h.builtin _ (List.mem_of_getElem? hj)).2
  rw [← hsame] at hbuiltin
  have hfound := h.keys.getElem?_key hd
  rw [builtinName?_inj hbuiltin hname, hkey] at hfound
  cases hfound

/-- A built-in type whose key is not known is new. -/
theorem xsd (h : Stocked l ls ds bs) (hname : builtinName? key = some name)
    (hkey : l.keys[key]? = none) :
    ∃ b, l.builder.xsd name = (l.builder.model.nextId, b) ∧ b.builtins = some ⟨ls.length⟩ ∧
      b.model.libraries.toList = ls ++ [{ Builder.builtinLibrary with
        members := (builtinShelf ds bs).members ++ [l.builder.model.nextId] }] ∧
      b.model.nodes = l.builder.model.nodes.push
        (.fresh (.member .xsdSimple) ⟨ls.length⟩ none name) := by
  obtain ⟨b, hb, hbuiltins, hnodes, hlibraries⟩ := h.withBuiltins
  have hlibrary : b.model.library? ⟨ls.length⟩ = some (builtinShelf ds bs) := by
    rw [Model.library?, ← Array.getElem?_toList, hlibraries]
    simp
  have hnew : b.model.nextId = l.builder.model.nextId := by rw [Model.nextId, hnodes]; rfl
  have hfind := h.findMember?_eq_none hname hkey hnodes hlibrary
  refine ⟨{ b with model := b.model.withMember ⟨ls.length⟩ (.member .xsdSimple) name }, ?_,
    hbuiltins, ?_, ?_⟩
  · rw [Builder.xsd, hb]
    simp only [hfind]
    exact congrArg (·, _) hnew
  · show (b.model.libraries.modify _ _).toList = _
    rw [Array.toList_modify, hlibraries]
    exact (listed_append_singleton ls _ _).trans (by rw [hnew]; rfl)
  · show b.model.nodes.push _ = _
    rw [hnodes]

/-- The nodes after a built-in type was added. -/
theorem node?_xsd {b : Builder} {library : LibraryId} (x : NodeId)
    (hnodes : b.model.nodes = l.builder.model.nodes.push
      (.fresh (.member .xsdSimple) library none name)) :
    b.model.node? x = if x = l.builder.model.nextId then
      some (.fresh (.member .xsdSimple) library none name) else l.builder.model.node? x := by
  rw [← Model.node?_pushed, Model.node?, hnodes]
  rfl

/-- The built-in type that was added is entered. -/
theorem enterBuiltin {b : Builder} (h : Stocked l ls ds bs) (hname : builtinName? key = some name)
    (hkey : l.keys[key]? = none) (hbuiltins : b.builtins = some ⟨ls.length⟩)
    (hlibraries : b.model.libraries.toList = ls ++ [{ Builder.builtinLibrary with
      members := (builtinShelf ds bs).members ++ [l.builder.model.nextId] }])
    (hnodes : b.model.nodes = l.builder.model.nodes.push
      (.fresh (.member .xsdSimple) ⟨ls.length⟩ none name)) :
    Stocked { l with builder := b, keys := l.keys.insert key l.builder.model.nextId } ls ds
      (bs ++ [builtinDeclaration key name]) := by
  have hnew : l.builder.model.nextId = ⟨(ds ++ bs).length⟩ := congrArg NodeId.mk h.size
  constructor
  case size =>
    show b.model.nodes.size = _
    rw [hnodes, Array.size_push, h.size]
    simp [Nat.add_assoc]
  case keys =>
    rw [← List.append_assoc, hnew]
    exact h.keys.insert (d := builtinDeclaration key name) hkey
  case bears =>
    intro i e he
    rw [← List.append_assoc] at he
    obtain he | ⟨rfl, rfl⟩ := getElem?_append_singleton_eq_some_iff.mp he
    · obtain ⟨n, hn, hshape⟩ := h.bears i e he
      exact ⟨n, (node?_xsd _ hnodes).trans ((if_neg (Model.ne_nextId hn)).trans hn), hshape⟩
    · exact ⟨_, (node?_xsd _ hnodes).trans (if_pos hnew.symm), rfl, rfl⟩
  case builtin =>
    intro e he
    obtain he | he := List.mem_append.mp he
    · exact h.builtin e he
    · obtain rfl := List.mem_singleton.mp he
      exact ⟨rfl, hname⟩
  case shelf =>
    refine .inr ⟨by simp, hbuiltins, ?_⟩
    have hlength : (bs ++ [builtinDeclaration key name]).length = bs.length + 1 :=
      List.length_append
    rw [hlibraries, hnew, builtinShelf, builtinShelf, hlength, List.range'_1_concat,
      List.map_append, List.map_singleton, List.length_append]
  case layered =>
    refine h.layered.of_extends ((Model.Extends.pushed _ _).trans (.of_nodes hnodes)) ?_
    intro x n hn hfacet
    rw [node?_xsd _ hnodes] at hn
    split at hn
    · obtain rfl := Option.some.inj hn
      cases hfacet
    · exact .inl ⟨n, hn⟩
  case nested =>
    refine h.nested.of_extends ((Model.Extends.pushed _ _).trans (.of_nodes hnodes)) ?_
    intro x n hn
    rw [node?_xsd _ hnodes] at hn
    split at hn
    · obtain rfl := Option.some.inj hn
      exact .inr ⟨rfl, nofun⟩
    · exact .inl ⟨n, hn⟩

/-- A key is found, or it means a built-in type that is added for it. -/
theorem resolve (h : Stocked l ls ds bs) (hr : l.resolve key = .ok (node, l')) :
    ∃ more, Stocked l' ls ds (bs ++ more) ∧ (∀ b ∈ more, b.key = key) ∧
      l'.keys[key]? = some node ∧
      ∀ x n, l'.builder.model.node? x = some n → l.builder.model.node? x = some n ∨
        l.builder.model.node? x = none ∧ ∀ t : Target, t.reference n = none := by
  unfold Loader.resolve at hr
  split at hr
  · next hfound =>
    obtain ⟨rfl, rfl⟩ := Prod.mk.inj (Except.ok.inj hr)
    exact ⟨[], by rwa [List.append_nil], by simp, hfound, fun x n hn => .inl hn⟩
  · next hkey =>
    split at hr
    · cases hr
    · next name hname =>
      obtain ⟨b, hb, hbuiltins, hlibraries, hnodes⟩ := h.xsd hname hkey
      rw [hb] at hr
      obtain ⟨rfl, rfl⟩ := Prod.mk.inj (Except.ok.inj hr)
      refine ⟨[builtinDeclaration key name],
        h.enterBuiltin hname hkey hbuiltins hlibraries hnodes, by simp [builtinDeclaration], ?_,
        fun x n hn => ?_⟩
      · rw [Keys.getElem?_insert, if_pos rfl]
      · rw [node?_xsd x hnodes] at hn
        split at hn
        · next hx =>
          obtain rfl := Option.some.inj hn
          exact .inr ⟨hx ▸ Model.node?_nextId .., fun t => reference_fresh ..⟩
        · exact .inl hn

/-- References of a node may change. -/
theorem refine (h : Stocked l ls ds bs) (node : NodeId) {f : Node → Node}
    (hf : ∀ n : Node, n.SamePlace (f n)) (hname : ∀ n, (f n).name = n.name) :
    Stocked (l.refine node f) ls ds bs where
  size := (Model.modifyNode_size ..).trans h.size
  keys := h.keys
  bears := fun i d hd => (h.bears i d hd).modifyNode node hf hname
  builtin := h.builtin
  shelf := h.shelf
  layered := h.layered.modifyNode node hf
  nested := h.nested.modifyNode node hf

end Stocked

/-! ### References that are set -/

/-- A reference that some declaration asks for. -/
def Asked (ds : List Declaration) (p : Pending) : Prop :=
  ∃ d, ds[p.node.index]? = some d ∧ d.text p.target = some p.key

/-- Only declared nodes ask for references. -/
theorem Asked.lt_length (hp : Asked ds p) : p.node.index < ds.length := by
  obtain ⟨d, hd, -⟩ := hp
  exact (List.getElem?_eq_some_iff.mp hd).1

/-- Only one text is given for a reference of a node. -/
theorem Asked.key_eq {q : Pending} (hp : Asked ds p) (hq : Asked ds q) (hnode : q.node = p.node)
    (htarget : q.target = p.target) : p.key = q.key := by
  obtain ⟨d, hd, hkey⟩ := hp
  obtain ⟨e, he, hkey'⟩ := hq
  rw [hnode] at he
  obtain rfl := Option.some.inj (hd.symm.trans he)
  rw [htarget] at hkey'
  exact Option.some.inj (hkey.symm.trans hkey')

/-- The references that were gone through are set, and no others. -/
structure Settled (l : Loader) (ls : List SchemaEditor.Library) (ds bs : List Declaration)
    (done : List Pending) : Prop where
  stocked : Stocked l ls ds bs
  wanted : ∀ b ∈ bs, ∃ p ∈ done, p.key = b.key
  resolved : ∀ p ∈ done, ∃ id, l.keys[p.key]? = some id
  references : ∀ id n, l.builder.model.node? id = some n → ∀ (t : Target) (provider : NodeId),
    t.reference n = some provider ↔ ∃ key, ⟨id, t, key⟩ ∈ done ∧ l.keys[key]? = some provider

namespace Settled

theorem start (h : Reads l ls ds [] 0) : Settled l ls ds [] [] where
  stocked := h.stocked
  wanted := fun _ hb => by cases hb
  resolved := fun _ hp => by cases hp
  references := fun id n hn t provider => by simp [h.blank id n hn t]

/-- What was set before a key is resolved means the same afterwards. -/
theorem key_eq {more : List Declaration} (h : Settled l ls ds bs done)
    (h' : Stocked l' ls ds (bs ++ more)) {q : Pending} (hq : q ∈ done) :
    l'.keys[q.key]? = l.keys[q.key]? := by
  obtain ⟨id, hid⟩ := h.resolved q hq
  rw [h.stocked.key_kept h' hid, hid]

/-- A key that is resolved sets no reference yet. -/
theorem references_of_resolve {more : List Declaration} (h : Settled l ls ds bs done)
    (hasked : ∀ q ∈ done, Asked ds q) (h' : Stocked l' ls ds (bs ++ more))
    (hnodes : ∀ x n, l'.builder.model.node? x = some n → l.builder.model.node? x = some n ∨
      l.builder.model.node? x = none ∧ ∀ t : Target, t.reference n = none)
    {id : NodeId} {n : Node} (hn : l'.builder.model.node? id = some n) (t : Target)
    (provider : NodeId) :
    t.reference n = some provider ↔
      ∃ key, ⟨id, t, key⟩ ∈ done ∧ l'.keys[key]? = some provider := by
  obtain hold | ⟨hnew, hblank⟩ := hnodes id n hn
  · rw [h.references id n hold t provider]
    exact exists_congr fun key => and_congr_right fun hq => by rw [h.key_eq h' hq]
  · rw [hblank]
    refine iff_of_false nofun fun ⟨key, hq, _⟩ => ?_
    have hlt : id.index < ds.length := (hasked _ hq).lt_length
    have hle := Model.node?_eq_none_iff.mp hnew
    rw [h.stocked.size, List.length_append] at hle
    omega

/-- One more reference is written. -/
theorem references_write {m : Model} {keys : Keys} (hasked : ∀ q ∈ done ++ [p], Asked ds q)
    (hnode : keys[p.key]? = some node)
    (hm : ∀ {id n}, m.node? id = some n → ∀ (t : Target) (provider : NodeId),
      t.reference n = some provider ↔ ∃ key, ⟨id, t, key⟩ ∈ done ∧ keys[key]? = some provider)
    {id : NodeId} {n : Node}
    (hn : (m.modifyNode p.node fun n => p.target.write node n).node? id = some n) (t : Target)
    (provider : NodeId) :
    t.reference n = some provider ↔
      ∃ key, ⟨id, t, key⟩ ∈ done ++ [p] ∧ keys[key]? = some provider := by
  by_cases hsame : id = p.node ∧ t = p.target
  · obtain ⟨rfl, rfl⟩ := hsame
    obtain ⟨k, -, -, rfl⟩ | ⟨hne, -⟩ := Model.modifyNode_cases hn
    · rw [reference_write, if_pos rfl, ← hnode]
      refine ⟨fun hp => ⟨p.key, by simp, hp⟩, fun ⟨key, hq, hp⟩ => ?_⟩
      rwa [Asked.key_eq (hasked p (by simp)) (hasked _ hq) rfl rfl]
    · exact absurd rfl hne
  · have hmem (key : String) : ⟨id, t, key⟩ ∈ done ++ [p] ↔ ⟨id, t, key⟩ ∈ done := by
      rw [List.mem_append, List.mem_singleton]
      refine or_iff_left fun hp => hsame ?_
      rw [← hp]
      exact ⟨rfl, rfl⟩
    simp only [hmem]
    obtain ⟨k, hid, hk, rfl⟩ | ⟨-, hk⟩ := Model.modifyNode_cases hn
    · rw [reference_write, if_neg fun ht => hsame ⟨hid, ht⟩]
      exact hm hk t provider
    · exact hm hk t provider

theorem settle (h : Settled l ls ds bs done) (hasked : ∀ q ∈ done ++ [p], Asked ds q)
    (hs : l.settle p = .ok l') : ∃ bs', Settled l' ls ds bs' (done ++ [p]) := by
  obtain ⟨node, l₁, hr, rfl⟩ := settle_cases hs
  obtain ⟨more, h₁, hmore, hnode, hnodes⟩ := h.stocked.resolve hr
  refine ⟨bs ++ more, ?_⟩
  constructor
  case stocked =>
    exact h₁.refine p.node (fun n => samePlace_write _ _ n) (fun n => name_write _ _ n)
  case wanted =>
    intro b hb
    obtain hb | hb := List.mem_append.mp hb
    · obtain ⟨q, hq, hkey⟩ := h.wanted b hb
      exact ⟨q, List.mem_append_left _ hq, hkey⟩
    · exact ⟨p, List.mem_append_right _ (List.mem_singleton.mpr rfl), (hmore b hb).symm⟩
  case resolved =>
    intro q hq
    obtain hq | hq := List.mem_append.mp hq
    · obtain ⟨x, hx⟩ := h.resolved q hq
      exact ⟨x, (h.key_eq h₁ hq).trans hx⟩
    · obtain rfl := List.mem_singleton.mp hq
      exact ⟨node, hnode⟩
  case references =>
    intro id n hn
    refine references_write hasked hnode (fun hk => ?_) hn
    exact h.references_of_resolve (fun q hq => hasked q (List.mem_append_left _ hq)) h₁ hnodes hk

/-- Settling what the declarations ask for leaves nothing else to be done. -/
theorem each {pending : List Pending} (h : Settled l ls ds [] [])
    (hasked : ∀ p ∈ pending, Asked ds p) (hl : pending.foldlM Loader.settle l = .ok l') :
    ∃ bs, Settled l' ls ds bs pending := by
  refine foldlM_collects
    (I := fun l done => (∀ p ∈ done, Asked ds p) → ∃ bs, Settled l ls ds bs done)
    (fun {l₁ done p l₂} h hs hasked => ?_) (fun _ => ⟨[], h⟩) hl hasked
  obtain ⟨bs, h⟩ := h fun q hq => hasked q (List.mem_append_left _ hq)
  exact h.settle hasked hs

end Settled

end SchemaEditor.Snapshot
