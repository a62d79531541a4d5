import Mathlib.Data.List.Nodup
import Mathlib.Data.UInt
import PlsqlAudit.Arena.Builder
import PlsqlAudit.Tree.Node

/-!
# Trees in an arena

While a program is read, an arena holds trees that are not yet attached and nodes that
are not yet complete.  `Builder.Forest` says which numbers hold the trees of a list, and
`Builder.Grown` what has become of a builder since an earlier time: the new numbers are
those of the given trees, all of which stand below one old node or are all detached, and
nothing else has changed.

Each operation of a builder has one lemma about what has grown: a node is made of trees
that were detached (`Grown.gather`), a detached tree is attached (`Grown.attach`), a node
is filled further (`Grown.graft`), and its kind or its span is changed (`Grown.setKind`,
`Grown.close`).  All this holds as long as the numbers of the nodes have not run out.
-/

namespace PlsqlAudit

/-- A node is given by its place: two numbers for the same place in the table are one number. -/
theorem NodeId.index_injective : Function.Injective NodeId.index := by
  rintro ⟨a⟩ ⟨b⟩ h
  exact congrArg NodeId.mk (UInt32.toNat_inj.1 h)

/-- The number for a place is at that place, as long as numbers have not run out. -/
theorem NodeId.index_ofIndex {n : Nat} (h : n < 2 ^ 32) : (NodeId.ofIndex n).index = n := by
  rw [ofIndex, index, UInt32.toNat_ofNat']
  exact Nat.mod_eq_of_lt h

namespace Builder

variable {b b' b₁ b₂ : Builder} {parent : Option NodeId} {n : Node} {ns ms : List Node}
  {ids kids all : List NodeId} {id : NodeId} {kind : Kind} {span : Span}

/-! ### Operations on entries -/

@[simp]
theorem size_update (b : Builder) (id : NodeId) (change : NodeEntry → NodeEntry) :
    (b.update id change).size = b.size := Array.size_modify

@[simp]
theorem size_attach (b : Builder) (parent child : NodeId) :
    (b.attach parent child).size = b.size := by
  rw [attach, size_update, size_update]

@[simp]
theorem size_attachAll (b : Builder) (parent : NodeId) (ids : List NodeId) :
    (ids.foldl (fun b id => b.attach parent id) b).size = b.size := by
  induction ids generalizing b with
  | nil => rfl
  | cons id ids ih => rw [List.foldl_cons, ih, size_attach]

@[simp]
theorem size_add (b : Builder) (kind : Kind) (span : Span) :
    (b.add kind span).2.size = b.size + 1 := Array.size_push _

@[simp]
theorem size_addChild (b : Builder) (parent : NodeId) (kind : Kind) (span : Span) :
    (b.addChild parent kind span).2.size = b.size + 1 := by
  rw [addChild, size_attach, size_add]

/-- A change of one entry leaves all others as they are. -/
theorem node?_update (b : Builder) (id other : NodeId) (change : NodeEntry → NodeEntry) :
    (b.update id change).node? other =
      (b.node? other).map fun e => if other = id then change e else e := by
  rw [node?, update, Array.getElem?_modify]
  by_cases heq : other = id
  · subst heq
    simp [node?]
  · have hne : id.index ≠ other.index := fun h => heq (NodeId.index_injective h).symm
    simp [node?, heq, hne]

/-- A change of an entry that keeps its span leaves all nodes where they are in the text. -/
theorem span_update (b : Builder) (id other : NodeId) {change : NodeEntry → NodeEntry}
    (h : ∀ e, (change e).span = e.span) : (b.update id change).span other = b.span other := by
  rw [span, span, node?_update]
  cases b.node? other with
  | none => rfl
  | some e =>
    by_cases heq : other = id
    · simp [heq, h]
    · simp [heq]

/-- Nodes stay where they are in the text when one is attached to another. -/
theorem span_attach (b : Builder) (parent child id : NodeId) :
    (b.attach parent child).span id = b.span id := by
  rw [attach, span_update, span_update]
  all_goals exact fun _ => rfl

/-- After some nodes were attached to another one, it has them behind those below it, and
they have it above them. -/
theorem node?_attachAll (b : Builder) {parent : NodeId} (h : parent ∉ ids) (other : NodeId) :
    (ids.foldl (fun b id => b.attach parent id) b).node? other =
      (b.node? other).map fun e =>
        if other = parent then { e with children := e.children ++ ids }
        else if other ∈ ids then { e with parent := some parent } else e := by
  induction ids generalizing b with
  | nil =>
    rw [List.foldl_nil]
    cases b.node? other <;> simp
  | cons id ids ih =>
    obtain ⟨hne, hmem⟩ := not_or.1 (mt List.mem_cons.2 h)
    rw [List.foldl_cons, ih _ hmem, attach, node?_update, node?_update, Option.map_map,
      Option.map_map]
    congr 1
    funext e
    by_cases hparent : other = parent
    · subst hparent
      simp [hne]
    · by_cases hid : other = id
      · subst hid
        simp [hparent]
      · simp [hparent, hid]

/-- The node that was made last is found with its kind and span, detached and childless; all other
nodes are found as they were. -/
theorem node?_add (h : b.size < 2 ^ 32) (other : NodeId) :
    (b.add kind span).2.node? other =
      if other = (b.add kind span).1 then some ⟨kind, span, none, []⟩ else b.node? other := by
  have hindex : (b.add kind span).1.index = b.entries.size := NodeId.index_ofIndex h
  by_cases heq : other = (b.add kind span).1
  · rw [if_pos heq, heq, node?, hindex]
    exact Array.getElem?_push_size
  · have hne : other.index ≠ b.entries.size :=
      fun hsame => heq (NodeId.index_injective (hsame.trans hindex.symm))
    rw [if_neg heq, node?, add, Array.getElem?_push, if_neg hne]
    rfl

/-- Makes a node below another one, or a detached one. -/
def addUnder (b : Builder) (parent : Option NodeId) (kind : Kind) (span : Span) :
    NodeId × Builder :=
  match parent with
  | none => b.add kind span
  | some p => b.addChild p kind span

/-- The new node has the first number that is free. -/
theorem index_addUnder (h : b.size < 2 ^ 32) :
    (b.addUnder parent kind span).1.index = b.size := by
  cases parent <;> exact NodeId.index_ofIndex h

@[simp]
theorem size_addUnder (b : Builder) (parent : Option NodeId) (kind : Kind) (span : Span) :
    (b.addUnder parent kind span).2.size = b.size + 1 := by
  cases parent with
  | none => exact size_add b kind span
  | some p => exact size_addChild b p kind span

/-- The entries after a node was made below another one. -/
theorem node?_addUnder (h : b.size < 2 ^ 32) (hparent : ∀ p ∈ parent, p.index < b.size)
    (other : NodeId) :
    (b.addUnder parent kind span).2.node? other =
      if other = (b.addUnder parent kind span).1 then some ⟨kind, span, parent, []⟩
      else (b.node? other).map fun e => if parent = some other then
        { e with children := e.children ++ [(b.addUnder parent kind span).1] } else e := by
  cases parent with
  | none =>
    rw [addUnder, node?_add h]
    simp
  | some p =>
    have hp := hparent p rfl
    have hindex : (b.add kind span).1.index = b.size := NodeId.index_ofIndex h
    have hne : p ∉ [(b.add kind span).1] := by
      rintro (_ | ⟨_, hmem⟩)
      · omega
      · cases hmem
    have hattach : (b.addUnder (some p) kind span).2 =
        [(b.add kind span).1].foldl (fun b id => b.attach p id) (b.add kind span).2 := rfl
    have hid : (b.addUnder (some p) kind span).1 = (b.add kind span).1 := rfl
    rw [hattach, node?_attachAll _ hne, node?_add h, hid]
    by_cases heq : other = (b.add kind span).1
    · have hother : other ≠ p := by
        rintro rfl
        exact hne (heq ▸ List.mem_cons_self)
      simp [heq, heq ▸ hother]
    · by_cases hother : other = p
      · simp [hother, hother ▸ heq]
      · simp [heq, hother, Ne.symm hother]

/-! ### Forests -/

/-- The nodes `ids` of a builder and all below them are the trees `ns`, and `parent` stands
above them.  All numbers of these trees are listed, each before those below it. -/
inductive Forest (b : Builder) :
    Option NodeId → List Node → List NodeId → List NodeId → Prop
  | nil (parent : Option NodeId) : Forest b parent [] [] []
  | cons {parent : Option NodeId} {id : NodeId} {kind : Kind} {span : Span}
      {children ns : List Node} {kids ids below all : List NodeId}
      (entry : b.node? id = some ⟨kind, span, parent, kids⟩)
      (inner : Forest b (some id) children kids below) (rest : Forest b parent ns ids all) :
      Forest b parent (.mk kind span children :: ns) (id :: ids) (id :: (below ++ all))

namespace Forest

/-- The roots of a forest are listed among its nodes, in their order. -/
theorem ids_sublist (h : b.Forest parent ns ids all) : ids.Sublist all := by
  induction h with
  | nil parent => exact .slnil
  | cons entry inner rest _ ihRest =>
    apply List.Sublist.cons_cons
    exact List.sublist_append_of_sublist_right ihRest

/-- The roots of a forest are nodes of it, since each tree has its root among its nodes. -/
theorem ids_subset (h : b.Forest parent ns ids all) : ids ⊆ all := h.ids_sublist.subset

/-- A forest depends on the entries of its own nodes only. -/
theorem congr (h : b.Forest parent ns ids all) (hsame : ∀ id ∈ all, b'.node? id = b.node? id) :
    b'.Forest parent ns ids all := by
  induction h with
  | nil parent => exact .nil parent
  | cons entry inner rest ihInner ihRest =>
    refine .cons ((hsame _ List.mem_cons_self).trans entry) (ihInner fun id hid => ?_)
      (ihRest fun id hid => ?_)
    · exact hsame id (List.mem_cons_of_mem _ (List.mem_append_left _ hid))
    · exact hsame id (List.mem_cons_of_mem _ (List.mem_append_right _ hid))

/-- Two forests below the same node, one behind the other, are one forest below it. -/
theorem append (h : b.Forest parent ns ids all) {kids below : List NodeId}
    (h' : b.Forest parent ms kids below) :
    b.Forest parent (ns ++ ms) (ids ++ kids) (all ++ below) := by
  induction h with
  | nil parent => exact h'
  | cons entry inner rest _ ihRest =>
    rw [List.cons_append, List.cons_append, List.cons_append, List.append_assoc]
    exact .cons entry inner (ihRest h')

/-- A forest is moved below another node by its roots alone. -/
theorem reparent (h : b.Forest parent ns ids all) (hnodup : all.Nodup) {above : Option NodeId}
    (hroots : ∀ id ∈ ids, b'.node? id = (b.node? id).map fun e => { e with parent := above })
    (hothers : ∀ id ∈ all, id ∉ ids → b'.node? id = b.node? id) :
    b'.Forest above ns ids all := by
  induction h with
  | nil parent => exact .nil above
  | @cons parent id kind span children ns kids ids below all entry inner rest _ ihRest =>
    obtain ⟨hid, hnodup⟩ := List.nodup_cons.1 hnodup
    obtain ⟨hbelow, hall, hdisjoint⟩ := List.nodup_append.1 hnodup
    refine .cons ?_ (inner.congr fun other hother => ?_) (ihRest hall ?_ ?_)
    · rw [hroots id List.mem_cons_self, entry, Option.map_some]
    · refine hothers other (List.mem_cons_of_mem _ (List.mem_append_left _ hother)) ?_
      rintro (_ | ⟨_, hmem⟩)
      · exact hid (List.mem_append_left _ hother)
      · exact hdisjoint other hother other (rest.ids_subset hmem) rfl
    · exact fun other hother => hroots other (List.mem_cons_of_mem _ hother)
    · intro other hother hnot
      refine hothers other (List.mem_cons_of_mem _ (List.mem_append_right _ hother)) ?_
      rintro (_ | ⟨_, hmem⟩)
      · exact hid (List.mem_append_right _ hother)
      · exact hnot hmem

/-- The spans of the roots are those of their trees. -/
theorem map_span (h : b.Forest parent ns ids all) : ids.map b.span = ns.map Node.span := by
  induction h with
  | nil parent => rfl
  | cons entry inner rest _ ihRest =>
    rw [List.map_cons, List.map_cons, ihRest, Builder.span, entry]
    rfl

end Forest

/-! ### What has grown -/

/-- Since the time of `b` the trees `ns` have been planted below `parent`, and nothing else
has changed. -/
structure Planted (b : Builder) (parent : Option NodeId) (ns : List Node) (ids : List NodeId)
    (b' : Builder) : Prop where
  /-- The trees are where they should be, and every new node belongs to one of them. -/
  forest : ∃ all, b'.Forest parent ns ids all ∧ all.Nodup ∧
    ∀ id, id ∈ all ↔ b.size ≤ id.index ∧ id.index < b'.size
  /-- Of the old nodes only the one above the trees has changed, and only below it. -/
  old : ∀ id, id.index < b.size → b'.node? id = (b.node? id).map fun e =>
    if parent = some id then { e with children := e.children ++ ids } else e

/-- Since the time of `b` the trees `ns` have been planted below `parent`, if that was an old
node and the numbers have not run out. -/
structure Grown (b : Builder) (parent : Option NodeId) (ns : List Node) (ids : List NodeId)
    (b' : Builder) : Prop where
  le : b.size ≤ b'.size
  planted : b'.size ≤ 2 ^ 32 → (∀ p ∈ parent, p.index < b.size) → Planted b parent ns ids b'

namespace Planted

/-- An old node that is not above the trees is as it was. -/
theorem node?_of_ne (h : Planted b parent ns ids b') (hid : id.index < b.size)
    (hne : parent ≠ some id) : b'.node? id = b.node? id := by
  rw [h.old id hid]
  simp [hne]

/-- Where nothing was done, nothing has grown: no tree was planted and all old nodes are as they
were. -/
theorem refl (b : Builder) (parent : Option NodeId) : Planted b parent [] [] b where
  forest := by
    refine ⟨[], .nil parent, .nil, fun id => ?_⟩
    simp only [List.not_mem_nil, false_iff]
    omega
  old := by
    intro id _
    simp

/-- Trees that were planted later stand behind those that were planted first. -/
theorem trans (h : Planted b parent ns ids b₁) (h' : Planted b₁ parent ms kids b₂)
    (hle : b.size ≤ b₁.size) (hle' : b₁.size ≤ b₂.size) (hparent : ∀ p ∈ parent, p.index < b.size) :
    Planted b parent (ns ++ ms) (ids ++ kids) b₂ where
  forest := by
    obtain ⟨all, hforest, hnodup, hall⟩ := h.forest
    obtain ⟨below, hforest', hnodup', hbelow⟩ := h'.forest
    have hkept : b₂.Forest parent ns ids all := by
      refine hforest.congr fun id hid => h'.node?_of_ne ((hall id).1 hid).2 fun heq => ?_
      have hlow := hparent id heq
      have hhigh := ((hall id).1 hid).1
      omega
    refine ⟨all ++ below, hkept.append hforest', ?_, fun id => ?_⟩
    · refine List.nodup_append.2 ⟨hnodup, hnodup', ?_⟩
      rintro id hid _ hid' rfl
      have hlow := ((hall id).1 hid).2
      have hhigh := ((hbelow id).1 hid').1
      omega
    · rw [List.mem_append, hall, hbelow]
      omega
  old := by
    intro id hid
    rw [h'.old id (by omega), h.old id hid, Option.map_map]
    congr 1
    funext e
    by_cases heq : parent = some id
    · simp [heq]
    · simp [heq]

/-- Detached trees are put below an old node, which gets their roots as its last children. -/
theorem attach {p : NodeId} (h : Planted b none ns ids b') (hp : p.index < b.size) :
    Planted b (some p) ns ids (ids.foldl (fun b id => b.attach p id) b') := by
  obtain ⟨all, hforest, hnodup, hall⟩ := h.forest
  have hnew : ∀ id ∈ ids, b.size ≤ id.index := fun id hid => ((hall id).1 (hforest.ids_subset hid)).1
  have hp' : p ∉ ids := fun hmem => by
    have hnot := hnew p hmem
    omega
  constructor
  · refine ⟨all, hforest.reparent hnodup (fun id hid => ?_) fun id hid hnot => ?_, hnodup, ?_⟩
    · have hne : id ≠ p := fun heq => hp' (heq ▸ hid)
      rw [node?_attachAll _ hp']
      simp [hne, hid]
    · have hne : id ≠ p := by
        rintro rfl
        have hnot := ((hall id).1 hid).1
        omega
      rw [node?_attachAll _ hp']
      simp [hne, hnot]
    · simpa using hall
  · intro id hid
    have hnot : id ∉ ids := fun hmem => by
      have hnot := hnew id hmem
      omega
    rw [node?_attachAll _ hp', h.node?_of_ne hid nofun]
    congr 1
    funext e
    by_cases heq : id = p
    · simp [heq]
    · simp [heq, hnot, Ne.symm heq]

/-- The entry of a node that was planted, and what stands below it. -/
theorem exists_below {x : NodeId} (h : Planted b parent [.mk kind span ns] [x] b₁) :
    ∃ kids below, b₁.node? x = some ⟨kind, span, parent, kids⟩ ∧
      b₁.Forest (some x) ns kids below ∧ x ∉ below ∧ below.Nodup ∧
      ∀ id, id ∈ x :: below ↔ b.size ≤ id.index ∧ id.index < b₁.size := by
  obtain ⟨all, hforest, hnodup, hall⟩ := h.forest
  cases hforest with
  | @cons _ _ _ _ _ _ kids _ below _ entry inner rest =>
    cases rest with
    | nil =>
      rw [List.append_nil] at hnodup hall
      obtain ⟨hx, hnodup⟩ := List.nodup_cons.1 hnodup
      exact ⟨kids, below, entry, inner, hx, hnodup, hall⟩

/-- A node was planted if its entry is there, and all other new nodes stand below it. -/
theorem of_below {x : NodeId} {kids below : List NodeId}
    (entry : b₁.node? x = some ⟨kind, span, parent, kids⟩)
    (inner : b₁.Forest (some x) ns kids below) (hx : x ∉ below) (hnodup : below.Nodup)
    (hall : ∀ id, id ∈ x :: below ↔ b.size ≤ id.index ∧ id.index < b₁.size)
    (hold : ∀ id, id.index < b.size → b₁.node? id = (b.node? id).map fun e =>
      if parent = some id then { e with children := e.children ++ [x] } else e) :
    Planted b parent [.mk kind span ns] [x] b₁ := by
  refine ⟨⟨x :: (below ++ []), .cons entry inner (.nil parent), ?_, ?_⟩, hold⟩
  · rw [List.append_nil]
    exact List.nodup_cons.2 ⟨hx, hnodup⟩
  · rw [List.append_nil]
    exact hall

/-- A node is made of trees that were detached, and put below an old node or left detached
itself. -/
theorem gather (h : Planted b none ns ids b₁) (hle : b.size ≤ b₁.size) (hsmall : b₁.size < 2 ^ 32)
    (hparent : ∀ p ∈ parent, p.index < b.size) :
    Planted b parent [.mk kind span ns] [(b₁.addUnder parent kind span).1]
      (ids.foldl (fun b id => b.attach (b₁.addUnder parent kind span).1 id)
        (b₁.addUnder parent kind span).2) := by
  obtain ⟨all, hforest, hnodup, hall⟩ := h.forest
  have hindex : (b₁.addUnder parent kind span).1.index = b₁.size := index_addUnder hsmall
  have hentry := @node?_addUnder b₁ parent kind span hsmall
    fun p hp => Nat.lt_of_lt_of_le (hparent p hp) hle
  have hsize := size_addUnder b₁ parent kind span
  generalize (b₁.addUnder parent kind span).1 = x at hindex hentry
  generalize (b₁.addUnder parent kind span).2 = b₂ at hentry hsize
  have hx : ∀ id, id.index < b₁.size → id ≠ x := by
    rintro id hid rfl
    omega
  have hids : x ∉ ids := fun hmem => hx x ((hall x).1 (hforest.ids_subset hmem)).2 rfl
  have hkept : ∀ id ∈ all, b₂.node? id = b₁.node? id := by
    intro id hid
    obtain ⟨hlow, hhigh⟩ := (hall id).1 hid
    have hne : parent ≠ some id := fun heq => by
      have hlow := hparent id heq
      omega
    rw [hentry, if_neg (hx id hhigh)]
    simp [hne]
  refine of_below ?_ (hforest.reparent hnodup (fun id hid => ?_) fun id hid hnot => ?_)
    (fun hmem => hx x ((hall x).1 hmem).2 rfl) hnodup (fun id => ?_) fun id hid => ?_
  · rw [node?_attachAll _ hids, hentry, if_pos rfl]
    simp
  · have hmem := hforest.ids_subset hid
    rw [node?_attachAll _ hids, hkept id hmem]
    simp [hx id ((hall id).1 hmem).2, hid]
  · rw [node?_attachAll _ hids, hkept id hid]
    simp [hx id ((hall id).1 hid).2, hnot]
  · have hsame : id = x ↔ id.index = b₁.size := by
      rw [← hindex]
      exact ⟨congrArg _, fun heq => NodeId.index_injective heq⟩
    rw [List.mem_cons, hall, hsame, size_attachAll, hsize]
    omega
  · have hnot : id ∉ ids := fun hmem => by
      have hnot := ((hall id).1 (hforest.ids_subset hmem)).1
      omega
    have hne := hx id (by omega)
    rw [node?_attachAll _ hids, hentry, if_neg hne, h.node?_of_ne hid nofun, Option.map_map]
    congr 1
    funext e
    simp [hne, hnot]

/-- A node that was planted is filled further: what is planted below it later becomes its last
children. -/
theorem graft {x : NodeId} (h : Planted b parent [.mk kind span ns] [x] b₁)
    (h' : Planted b₁ (some x) ms kids b₂) (hle : b.size ≤ b₁.size) (hle' : b₁.size ≤ b₂.size) :
    Planted b parent [.mk kind span (ns ++ ms)] [x] b₂ := by
  obtain ⟨first, below, entry, inner, hx, hnodup, hall⟩ := h.exists_below
  obtain ⟨more, hforest, hnodup', hmore⟩ := h'.forest
  have hnew := (hall x).1 List.mem_cons_self
  have hkept : ∀ id ∈ below, b₂.node? id = b₁.node? id := by
    intro id hid
    apply h'.node?_of_ne ((hall id).1 (List.mem_cons_of_mem _ hid)).2
    rintro heq
    obtain rfl := Option.some.inj heq
    exact hx hid
  refine of_below ?_ ((inner.congr hkept).append hforest) (fun hmem => ?_) ?_ (fun id => ?_)
    fun id hid => ?_
  · rw [h'.old x hnew.2, entry]
    simp
  · rcases List.mem_append.1 hmem with hmem | hmem
    · exact hx hmem
    · have hhigh := ((hmore x).1 hmem).1
      omega
  · refine List.nodup_append.2 ⟨hnodup, hnodup', ?_⟩
    rintro id hid _ hid' rfl
    have hlow := ((hall id).1 (List.mem_cons_of_mem _ hid)).2
    have hhigh := ((hmore id).1 hid').1
    omega
  · rw [← List.cons_append, List.mem_append, hall, hmore]
    omega
  · rw [← h.old id hid]
    apply h'.node?_of_ne (by omega)
    rintro heq
    obtain rfl := Option.some.inj heq
    omega

/-- The kind and the span of a node that was planted are changed. -/
theorem update {x : NodeId} {kind' : Kind} {span' : Span} {change : NodeEntry → NodeEntry}
    (h : Planted b parent [.mk kind span ns] [x] b₁)
    (hchange : ∀ above kids, change ⟨kind, span, above, kids⟩ = ⟨kind', span', above, kids⟩) :
    Planted b parent [.mk kind' span' ns] [x] (b₁.update x change) := by
  obtain ⟨kids, below, entry, inner, hx, hnodup, hall⟩ := h.exists_below
  have hkept : ∀ id, id ≠ x → (b₁.update x change).node? id = b₁.node? id := by
    intro id hne
    rw [node?_update]
    simp [hne]
  refine of_below ?_ (inner.congr fun id hid => hkept id fun heq => hx (heq ▸ hid)) hx hnodup ?_
    fun id hid => ?_
  · rw [node?_update, entry]
    simp [hchange]
  · simpa using hall
  · rw [← h.old id hid]
    apply hkept
    rintro rfl
    have hnew := ((hall id).1 List.mem_cons_self).1
    omega

end Planted

namespace Grown

/-- Where nothing was done nothing has grown, whether or not the numbers of the nodes have run out.
-/
theorem refl (b : Builder) (parent : Option NodeId) : Grown b parent [] [] b :=
  ⟨Nat.le_refl _, fun _ _ => .refl b parent⟩

/-- Trees that were planted later stand behind those that were planted first. -/
theorem trans (h : Grown b parent ns ids b₁) (h' : Grown b₁ parent ms kids b₂) :
    Grown b parent (ns ++ ms) (ids ++ kids) b₂ where
  le := h.le.trans h'.le
  planted := by
    intro hsmall hparent
    have hlater : ∀ p ∈ parent, p.index < b₁.size :=
      fun p hp => Nat.lt_of_lt_of_le (hparent p hp) h.le
    exact (h.planted (h'.le.trans hsmall) hparent).trans (h'.planted hsmall hlater) h.le h'.le
      hparent

/-- A tree may be described in another way, as long as numbers have not run out. -/
theorem of_eq (h : Grown b parent ns ids b₁) (heq : b₁.size ≤ 2 ^ 32 → ns = ms) :
    Grown b parent ms ids b₁ where
  le := h.le
  planted := fun hsmall hparent => heq hsmall ▸ h.planted hsmall hparent

/-- Detached trees are put below a node, which gets their roots as its last children. -/
theorem attach (h : Grown b none ns ids b₁) (p : NodeId) :
    Grown b (some p) ns ids (ids.foldl (fun b id => b.attach p id) b₁) where
  le := by
    rw [size_attachAll]
    exact h.le
  planted := by
    intro hsmall hp
    rw [size_attachAll] at hsmall
    exact (h.planted hsmall nofun).attach (hp p rfl)

/-- A node is made around trees that were detached, and gets their roots as its children in order.
-/
theorem gather (h : Grown b none ns ids b₁) (parent : Option NodeId) (kind : Kind) (span : Span) :
    Grown b parent [.mk kind span ns] [(b₁.addUnder parent kind span).1]
      (ids.foldl (fun b id => b.attach (b₁.addUnder parent kind span).1 id)
        (b₁.addUnder parent kind span).2) where
  le := by
    rw [size_attachAll, size_addUnder]
    exact h.le.trans (Nat.le_succ _)
  planted := by
    intro hsmall hparent
    rw [size_attachAll, size_addUnder] at hsmall
    exact (h.planted (by omega) nofun).gather h.le (by omega) hparent

/-- A node without anything below it is made, detached or as the last child of its parent. -/
theorem leaf (b : Builder) (parent : Option NodeId) (kind : Kind) (span : Span) :
    Grown b parent [.leaf kind span] [(b.addUnder parent kind span).1]
      (b.addUnder parent kind span).2 :=
  (refl b none).gather parent kind span

/-- A node that has grown is filled further: what grows below it later becomes its last children.
-/
theorem graft {x : NodeId} (h : Grown b parent [.mk kind span ns] [x] b₁)
    (h' : Grown b₁ (some x) ms kids b₂) : Grown b parent [.mk kind span (ns ++ ms)] [x] b₂ where
  le := h.le.trans h'.le
  planted := by
    intro hsmall hparent
    have hfirst := h.planted (h'.le.trans hsmall) hparent
    have hx : ∀ p ∈ some x, p.index < b₁.size := by
      rintro p ⟨⟩
      obtain ⟨_, _, -, -, -, -, hall⟩ := hfirst.exists_below
      exact ((hall x).1 List.mem_cons_self).2
    exact hfirst.graft (h'.planted hsmall hx) h.le h'.le

/-- The spans of detached trees are those of their nodes. -/
theorem map_span (h : Grown b none ns ids b₁) (hsmall : b₁.size ≤ 2 ^ 32) :
    ids.map b₁.span = ns.map Node.span := by
  obtain ⟨all, hforest, -⟩ := (h.planted hsmall nofun).forest
  exact hforest.map_span

/-- The span of the first of some detached trees is that of its node. -/
theorem span_head (h : Grown b none (n :: ns) (id :: ids) b₁) (hsmall : b₁.size ≤ 2 ^ 32) :
    b₁.span id = n.span := (List.cons.inj (h.map_span hsmall)).1

/-- The span of the last of some detached trees is that of its node. -/
theorem span_last (h : Grown b none (ns ++ [n]) (ids ++ [id]) b₁) (hsmall : b₁.size ≤ 2 ^ 32) :
    b₁.span id = n.span := by
  have hspans := h.map_span hsmall
  rw [List.map_append, List.map_append] at hspans
  exact (List.cons.inj (List.append_inj_right' hspans rfl)).1

/-- The span of a node that has grown is stretched. -/
theorem close {x : NodeId} (h : Grown b parent [.mk kind span ns] [x] b₁) (last : Span) :
    Grown b parent [.mk kind (span.cover last) ns] [x] (b₁.close x last) where
  le := by
    rw [Builder.close, size_update]
    exact h.le
  planted := by
    intro hsmall hparent
    rw [Builder.close, size_update] at hsmall
    exact (h.planted hsmall hparent).update fun _ _ => rfl

/-- The span of a detached tree is stretched by the span that it has already, itself stretched to
the end of another one. -/
theorem stretch (h : Grown b none [n] [id] b₁) (last : Span) :
    Grown b none [n.stretch last] [id] (b₁.close id ((b₁.span id).cover last)) := by
  obtain ⟨kind, span, ns⟩ := n
  refine (h.close _).of_eq fun hsmall => ?_
  rw [Builder.close, size_update] at hsmall
  rw [h.span_head hsmall, Node.span, Span.cover_self_cover]
  rfl

/-- The kind of a node that has grown is changed. -/
theorem setKind {x : NodeId} (h : Grown b parent [.mk kind span ns] [x] b₁) (kind' : Kind) :
    Grown b parent [.mk kind' span ns] [x] (b₁.setKind x kind') where
  le := by
    rw [Builder.setKind, size_update]
    exact h.le
  planted := by
    intro hsmall hparent
    rw [Builder.setKind, size_update] at hsmall
    exact (h.planted hsmall hparent).update fun _ _ => rfl

end Grown

/-- Since the time of `b` the trees `ns` have been put below `node`, behind what stood
there. -/
def Filled (b : Builder) (node : NodeId) (ns : List Node) (b' : Builder) : Prop :=
  ∃ ids, b.Grown (some node) ns ids b'

namespace Filled

variable {node : NodeId}

/-- Where nothing was done, nothing was put below a node. -/
theorem refl (b : Builder) (node : NodeId) : b.Filled node [] b := ⟨[], .refl b _⟩

/-- A node is filled further, and has then been filled with both lists of trees, in this order. -/
theorem trans (h : b.Filled node ns b₁) (h' : b₁.Filled node ms b₂) :
    b.Filled node (ns ++ ms) b₂ := by
  obtain ⟨ids, h⟩ := h
  obtain ⟨kids, h'⟩ := h'
  exact ⟨ids ++ kids, h.trans h'⟩

/-- What was put below a node after it was made belongs to it. -/
theorem graft {x : NodeId} (h' : b₁.Filled x ms b₂) (h : b.Grown parent [.mk kind span ns] [x] b₁) :
    b.Grown parent [.mk kind span (ns ++ ms)] [x] b₂ := by
  obtain ⟨kids, h'⟩ := h'
  exact h.graft h'

end Filled

end Builder

end PlsqlAudit
