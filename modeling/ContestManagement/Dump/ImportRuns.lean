import ContestManagement.Dump.ExportRuns
import ContestManagement.Dump.Importer

/-!
# What an import restores

The first pass makes an object of the data of each id, the second one gives it the relationships to
the others.
-/

namespace ContestManagement
namespace Dump

open Lib

variable {Doc : Type} {ip : Ipaddress} {O : Type}

/-! ## Relationships -/

/-- The value of a relationship between renamed objects. -/
def RelValue.map {P : Type} (f : O → P) : RelValue O → RelValue P
  | .none => .none
  | .one o => .one (f o)
  | .many os => .many (os.map f)
  | .keyed os => .keyed (os.mapValues f)

/-- The values are equal: the lists in their order, the dictionaries by their keys. -/
def RelValue.Same {P : Type} : RelValue P → RelValue P → Prop
  | .none, .none => True
  | .one o, .one x => o = x
  | .many os, .many xs => os = xs
  | .keyed os, .keyed xs => ∀ key, os.get? key = xs.get? key
  | _, _ => False

theorem RelValue.Same.mem_targets {P : Type} {value value' : RelValue P} (h : value.Same value')
    {x : P} (hx : x ∈ value.targets) : x ∈ value'.targets := by
  cases value <;> cases value' <;> first | exact absurd h id | skip
  case none.none => exact hx
  case one.one o x' =>
    obtain rfl : o = x' := h
    exact hx
  case many.many os xs =>
    obtain rfl : os = xs := h
    exact hx
  case keyed.keyed os xs =>
    obtain ⟨⟨key, y⟩, hmem, rfl⟩ := List.mem_map.1 hx
    have hget : os.get? key = xs.get? key := h key
    rw [Dict.mem_items_iff, hget, ← Dict.mem_items_iff] at hmem
    exact List.mem_map_of_mem hmem

theorem RelValue.Same.symm {P : Type} {value value' : RelValue P} (h : value.Same value') :
    value'.Same value := by
  cases value <;> cases value' <;> first | exact absurd h id | skip
  case none.none => trivial
  case one.one => exact Eq.symm h
  case many.many => exact Eq.symm h
  case keyed.keyed => exact fun key => (h key).symm

theorem RelValue.targets_map {P : Type} (f : O → P) (value : RelValue O) :
    (value.map f).targets = value.targets.map f := by
  cases value with
  | none | one | many => rfl
  | keyed os =>
      rw [RelValue.map, RelValue.targets, RelValue.targets, Dict.mapValues, List.map_map,
        List.map_map]
      rfl

/-! ## The first pass -/

namespace Importer

variable {data : ObjectData Doc ip}

/-- Every column that is decoded is an argument. -/
theorem importArgs_spec (value : String → PyObj Doc ip.Network) (cols : List (ColProp Doc ip))
    (args : Dict String (PyObj Doc ip.Network))
    (h : ∀ prp ∈ cols, ∃ encoded, data.get? prp.key = some encoded ∧
      decodeValue ip prp.type encoded = .ok (value prp.key)) :
    importArgs data cols args = .ok (args.setAll (cols.map (·.key)) value) := by
  induction cols generalizing args with
  | nil => rfl
  | cons prp rest ih =>
      obtain ⟨encoded, hget, hdecode⟩ := h prp (by simp)
      rw [importArgs, hget]
      dsimp only
      rw [hdecode]
      dsimp only
      rw [ih _ fun other hother => h other (by simp [hother])]
      rfl

/-- Every argument that is accepted is set. -/
theorem setAttrs_spec {args : Dict String (PyObj Doc ip.Network)}
    (value : String → PyObj Doc ip.Network) (cols : List (ColProp Doc ip))
    (attrs : Dict String (PyObj Doc ip.Network))
    (h : ∀ prp ∈ cols, args.get? prp.key = some (value prp.key))
    (haccepts : ∀ prp ∈ cols, prp.accepts (value prp.key) = true) :
    setAttrs args cols attrs = .ok (attrs.setAll (cols.map (·.key)) value) := by
  induction cols generalizing attrs with
  | nil => rfl
  | cons prp rest ih =>
      rw [setAttrs, h prp (by simp)]
      dsimp only
      rw [if_pos (haccepts prp (by simp)), ih _ (fun other hother => h other (by simp [hother]))
        fun other hother => haccepts other (by simp [hother])]
      rfl

end Importer

variable {schema : Schema Doc ip} (g : Graph schema O)

/-- The columns of an object. -/
def Graph.attrs (o : O) : Dict String (PyObj Doc ip.Network) :=
  Dict.empty.setAll ((g.cls o).cols.map (·.key)) (g.col o)

/-- The values of the columns pass the check of `set_attrs`. -/
def Graph.Accepted (o : O) : Prop :=
  ∀ prp ∈ (g.cls o).cols, prp.accepts (g.col o prp.key) = true

/-- The object that the first pass makes. -/
def Graph.object (o : O) : NewObject Doc ip := ⟨g.cls o, g.attrs o, .empty⟩

variable {g}

namespace Importer

theorem importObject_spec {skips : Skips} {name : O → String} {o : O} {data : ObjectData Doc ip}
    (h : IsData g skips name o data) (haccepts : g.Accepted o) :
    importObject schema data = .ok (g.object o) := by
  have hargs : importArgs data (g.cls o).cols .empty = .ok (g.attrs o) := by
    refine importArgs_spec (g.col o) (g.cls o).cols .empty fun prp hprp => ?_
    obtain ⟨encoded, hencode, hget⟩ := h.cols prp hprp
    obtain ⟨encoded', hencode', hdecode⟩ := decodeValue_encodeValue prp.type (g.holds o prp hprp)
    obtain rfl : encoded = encoded' := Except.ok.inj (hencode.symm.trans hencode')
    exact ⟨encoded, hget, hdecode⟩
  have hattrs : setAttrs (g.attrs o) (g.cls o).cols .empty = .ok (g.attrs o) := by
    refine setAttrs_spec (g.col o) (g.cls o).cols .empty (fun prp hprp => ?_) haccepts
    rw [Graph.attrs, Dict.get?_setAll, if_pos (List.mem_map_of_mem hprp)]
  rw [importObject, h.cls]
  dsimp only
  rw [g.known o]
  dsimp only
  rw [hargs]
  dsimp only
  rw [hattrs]
  rfl

/-- What the first pass makes of each item is found under its id. -/
theorem importObjects_spec (p : String → NewObject Doc ip → Prop)
    (items : List (String × ObjectData Doc ip)) (objs : Dict String (NewObject Doc ip))
    (h : ∀ item ∈ items, ∃ obj, importObject schema item.2 = .ok obj ∧ p item.1 obj)
    (hold : ∀ id obj, objs.get? id = some obj → p id obj) :
    ∃ objs', importObjects schema items objs = .ok objs' ∧
      (∀ id, (objs'.get? id).isSome ↔ id ∈ items.map Prod.fst ∨ (objs.get? id).isSome) ∧
      ∀ id obj, objs'.get? id = some obj → p id obj := by
  induction items generalizing objs with
  | nil =>
      refine ⟨objs, rfl, fun id => ?_, hold⟩
      simp
  | cons item rest ih =>
      obtain ⟨obj, hobj, hp⟩ := h item (by simp)
      obtain ⟨objs', hrun, hkeys, hobjs⟩ := ih (objs.set item.1 obj)
        (fun other hother => h other (by simp [hother]))
        (fun id other hget => by
          rw [Dict.get?_set] at hget
          by_cases heq : id = item.1
          · rw [if_pos heq] at hget
            rw [heq, ← Option.some.inj hget]
            exact hp
          · rw [if_neg heq] at hget
            exact hold id other hget)
      refine ⟨objs', ?_, fun id => ?_, hobjs⟩
      · rw [importObjects, hobj]
        exact hrun
      · rw [hkeys id, Dict.get?_set, List.map_cons, List.mem_cons]
        by_cases heq : id = item.1
        · simp [heq]
        · rw [if_neg heq]
          simp [heq]

/-! ## The second pass -/

variable {objs : Dict String (NewObject Doc ip)}

theorem present_map {name : O → String} {os : List O}
    (h : ∀ o ∈ os, (objs.get? (name o)).isSome) :
    present objs (os.map fun o => (.str (name o) : PyObj Doc ip.Network)) = os.map name := by
  induction os with
  | nil => rfl
  | cons o rest ih =>
      have hrest := ih fun x hx => h x (by simp [hx])
      unfold present at hrest ⊢
      rw [List.map_cons, List.filterMap_cons]
      dsimp only
      rw [if_pos (h o (by simp)), hrest]
      rfl

theorem presentItems_map {name : O → String} (items : List (String × O))
    (found : Dict String String) (h : ∀ item ∈ items, (objs.get? (name item.2)).isSome) :
    presentItems objs
        (items.map fun item => (item.1, (.str (name item.2) : PyObj Doc ip.Network))) found =
      (items.map fun item => (item.1, name item.2)).foldl
        (fun d item => d.set item.1 item.2) found := by
  induction items generalizing found with
  | nil => rfl
  | cons item rest ih =>
      rw [List.map_cons, presentItems, if_pos (h item (by simp)),
        ih _ fun other hother => h other (by simp [hother])]
      rfl

/-- A relationship is restored when all the objects it leads to are there. -/
theorem relValue_spec (name : O → String) (value : RelValue O)
    (h : ∀ x ∈ value.targets, (objs.get? (name x)).isSome) :
    ∃ value', relValue objs (value.data name) = .ok value' ∧ value'.Same (value.map name) := by
  cases value with
  | none => exact ⟨.none, rfl, trivial⟩
  | one o =>
      refine ⟨.one (name o), ?_, rfl⟩
      rw [RelValue.data, relValue, if_pos (h o (by simp [RelValue.targets]))]
  | many os =>
      have hpresent : present objs (os.map fun o => (.str (name o) : PyObj Doc ip.Network)) =
          os.map name := present_map h
      refine ⟨.many (os.map name), ?_, rfl⟩
      rw [RelValue.data, relValue, hpresent]
  | keyed os =>
      refine ⟨.keyed (Dict.empty.update (os.mapValues name)), ?_, fun key => ?_⟩
      · rw [RelValue.data, relValue, presentItems_map os.items .empty fun item hitem =>
          h item.2 (List.mem_map_of_mem hitem)]
        rfl
      · rw [Dict.get?_update, Dict.get?_empty, Option.or_none]

/-- The relationships of an object, when all the objects it leads to are there. -/
theorem addRelationships_spec {skips : Skips} {name : O → String} {o : O}
    {data : ObjectData Doc ip} (props : List RelProp) (rels : Dict String (RelValue String))
    (value : String → RelValue String)
    (hdata : ∀ prp ∈ props, data.get? prp.key =
      if skips.leavesOut prp.otherClass then none else some ((g.rel o prp.key).data name))
    (hvalue : ∀ prp ∈ props, skips.leavesOut prp.otherClass = false →
      relValue objs ((g.rel o prp.key).data name : PyObj Doc ip.Network) =
        .ok (value prp.key)) :
    addRelationships objs data props rels = .ok (rels.setAll
      ((props.filter fun prp => !skips.leavesOut prp.otherClass).map (·.key)) value) := by
  induction props generalizing rels with
  | nil => rfl
  | cons prp rest ih =>
      have hrest := fun rels => ih rels (fun other hother => hdata other (by simp [hother]))
        fun other hother => hvalue other (by simp [hother])
      rw [addRelationships, hdata prp (by simp)]
      cases hskip : skips.leavesOut prp.otherClass with
      | true =>
          rw [if_pos rfl, List.filter_cons_of_neg (by simp [hskip])]
          exact hrest rels
      | false =>
          rw [if_neg Bool.false_ne_true, List.filter_cons_of_pos (by simp [hskip])]
          dsimp only
          rw [hvalue prp (by simp) hskip]
          exact hrest _

end Importer

/-! ## What was restored -/

theorem leavesOut_noSkips (otherClass : String) :
    noSkips.leavesOut otherClass = decide (otherClass = "RankingGroup") := by
  simp [Skips.leavesOut, noSkips]

theorem removes_noSkips (name : String) : noSkips.removes name = false := by
  simp [Skips.removes, noSkips]

variable (g) in
/-- The objects that an object leads to, other than its ranking group. -/
def Graph.links (o : O) : List O :=
  (g.cls o).rels.flatMap fun prp =>
    if prp.otherClass = "RankingGroup" then [] else (g.rel o prp.key).targets

theorem Graph.next_noSkips : g.next noSkips = g.links := by
  funext o
  simp only [Graph.next, Graph.relTargets, Graph.links, leavesOut_noSkips, decide_eq_true_eq]

variable (g) in
/-- The new object has the class of an object, the values of its columns and its relationships to
the new objects; no ranking group is set. -/
structure IsRestored (name : O → String) (o : O) (obj : NewObject Doc ip) : Prop where
  cls : obj.cls = g.cls o
  cols : ∀ prp ∈ (g.cls o).cols, obj.attrs.get? prp.key = some (g.col o prp.key)
  rels : ∀ prp ∈ (g.cls o).rels, prp.otherClass ≠ "RankingGroup" →
    ∃ value, obj.rels.get? prp.key = some value ∧ value.Same ((g.rel o prp.key).map name)
  only : ∀ key value, obj.rels.get? key = some value →
    ∃ prp ∈ (g.cls o).rels, prp.key = key ∧ prp.otherClass ≠ "RankingGroup"

/-- The relationships of a new object lead where those of the object lead. -/
theorem IsRestored.mem_targets_iff {name : O → String} {o : O} {obj : NewObject Doc ip}
    (h : IsRestored g name o obj) {id : String} :
    id ∈ obj.rels.items.flatMap (fun item => item.2.targets) ↔ ∃ x ∈ g.links o, name x = id := by
  constructor
  · intro hid
    obtain ⟨⟨key, value⟩, hmem, htarget⟩ := List.mem_flatMap.1 hid
    have hget := Dict.mem_items_iff.1 hmem
    obtain ⟨prp, hprp, rfl, hgroup⟩ := h.only key value hget
    obtain ⟨value', hget', hsame⟩ := h.rels prp hprp hgroup
    obtain rfl : value' = value := Option.some.inj (hget'.symm.trans hget)
    have hmap := hsame.mem_targets htarget
    rw [RelValue.targets_map] at hmap
    obtain ⟨x, hx, rfl⟩ := List.mem_map.1 hmap
    refine ⟨x, List.mem_flatMap.2 ⟨prp, hprp, ?_⟩, rfl⟩
    rw [if_neg hgroup]
    exact hx
  · rintro ⟨x, hx, rfl⟩
    obtain ⟨prp, hprp, htarget⟩ := List.mem_flatMap.1 hx
    by_cases hgroup : prp.otherClass = "RankingGroup"
    · rw [if_pos hgroup] at htarget
      cases htarget
    · rw [if_neg hgroup] at htarget
      obtain ⟨value, hget, hsame⟩ := h.rels prp hprp hgroup
      refine List.mem_flatMap.2 ⟨(prp.key, value), Dict.mem_items_iff.2 hget, ?_⟩
      refine hsame.symm.mem_targets ?_
      rw [RelValue.targets_map]
      exact List.mem_map_of_mem htarget

namespace Importer

variable {objs : Dict String (NewObject Doc ip)} {name : O → String} {o : O}

theorem addRelationships_isRestored {data : ObjectData Doc ip} (h : IsData g noSkips name o data)
    (hpresent : ∀ x ∈ g.links o, (objs.get? (name x)).isSome) :
    ∃ rels, addRelationships objs data (g.object o).cls.rels (g.object o).rels = .ok rels ∧
      IsRestored g name o { g.object o with rels } := by
  have hexists : ∀ key, ∃ value : RelValue String,
      ∀ prp ∈ (g.cls o).rels, prp.otherClass ≠ "RankingGroup" → prp.key = key →
        relValue objs ((g.rel o key).data name : PyObj Doc ip.Network) = .ok value ∧
          value.Same ((g.rel o key).map name) := by
    intro key
    by_cases hkey : ∃ prp ∈ (g.cls o).rels, prp.otherClass ≠ "RankingGroup" ∧ prp.key = key
    · obtain ⟨prp, hprp, hgroup, rfl⟩ := hkey
      obtain ⟨value, hvalue⟩ := relValue_spec name (g.rel o prp.key) fun x hx =>
        hpresent x (List.mem_flatMap.2 ⟨prp, hprp, by rwa [if_neg hgroup]⟩)
      exact ⟨value, fun _ _ _ _ => hvalue⟩
    · exact ⟨.none, fun prp hprp hgroup heq => absurd ⟨prp, hprp, hgroup, heq⟩ hkey⟩
  choose value hvalue using hexists
  refine ⟨_, addRelationships_spec (g.object o).cls.rels (g.object o).rels value h.rels ?_, rfl, ?_,
    ?_, ?_⟩
  · intro prp hprp hskip
    rw [leavesOut_noSkips, decide_eq_false_iff_not] at hskip
    exact (hvalue prp.key prp hprp hskip rfl).1
  · intro prp hprp
    change (g.attrs o).get? prp.key = _
    rw [Graph.attrs, Dict.get?_setAll, if_pos (List.mem_map_of_mem hprp)]
  · intro prp hprp hgroup
    refine ⟨value prp.key, ?_, (hvalue prp.key prp hprp hgroup rfl).2⟩
    have hmem : prp ∈ (g.cls o).rels.filter fun prp => !noSkips.leavesOut prp.otherClass := by
      rw [List.mem_filter, leavesOut_noSkips]
      exact ⟨hprp, by simpa using hgroup⟩
    rw [Dict.get?_setAll]
    exact if_pos (List.mem_map_of_mem hmem)
  · intro key value' hget
    rw [Dict.get?_setAll] at hget
    by_cases hkey : key ∈ ((g.object o).cls.rels.filter
        fun prp => !noSkips.leavesOut prp.otherClass).map (·.key)
    · obtain ⟨prp, hprp, heq⟩ := List.mem_map.1 hkey
      rw [List.mem_filter, leavesOut_noSkips] at hprp
      exact ⟨prp, hprp.1, heq, by simpa using hprp.2⟩
    · rw [if_neg hkey] at hget
      cases hget

/-- The second pass restores the objects of the items. -/
theorem addAllRelationships_spec {ids : List O}
    (hinj : ∀ o ∈ ids, ∀ x ∈ ids, name o = name x → o = x)
    (hclosed : ∀ o ∈ ids, ∀ x ∈ g.links o, x ∈ ids)
    (items : List (String × ObjectData Doc ip)) (objs : Dict String (NewObject Doc ip))
    (hnodup : (items.map Prod.fst).Nodup)
    (hitems : ∀ item ∈ items, ∃ o ∈ ids, item.1 = name o ∧ IsData g noSkips name o item.2)
    (hpresent : ∀ o ∈ ids, (objs.get? (name o)).isSome)
    (hobjs : ∀ o ∈ ids, name o ∈ items.map Prod.fst → objs.get? (name o) = some (g.object o)) :
    ∃ objs', addAllRelationships items objs = .ok objs' ∧
      (∀ id, (objs'.get? id).isSome ↔ (objs.get? id).isSome) ∧
      (∀ id, id ∉ items.map Prod.fst → objs'.get? id = objs.get? id) ∧
      ∀ o ∈ ids, name o ∈ items.map Prod.fst →
        ∃ obj, objs'.get? (name o) = some obj ∧ IsRestored g name o obj := by
  induction items generalizing objs with
  | nil =>
      refine ⟨objs, rfl, fun id => Iff.rfl, fun id _ => rfl, fun o _ hmem => ?_⟩
      cases hmem
  | cons item rest ih =>
      obtain ⟨id, data⟩ := item
      rw [List.map_cons, List.nodup_cons] at hnodup
      obtain ⟨o, ho, rfl, hdata⟩ := hitems (id, data) (by simp)
      have hget := hobjs o ho (by simp)
      obtain ⟨rels, hrels, hrestored⟩ := addRelationships_isRestored hdata fun x hx =>
        hpresent x (hclosed o ho x hx)
      have hsome : ∀ id, ((objs.set (name o) { g.object o with rels }).get? id).isSome ↔
          (objs.get? id).isSome := by
        intro id
        rw [Dict.get?_set]
        by_cases heq : id = name o
        · rw [if_pos heq, heq, hget]
          simp
        · rw [if_neg heq]
      obtain ⟨objs', hrun, hkeys, hother, hrest⟩ := ih (objs.set (name o) { g.object o with rels })
        hnodup.2 (fun item hitem => hitems item (by simp [hitem]))
        (fun x hx => (hsome (name x)).2 (hpresent x hx))
        (fun x hx hmem => by
          have hne : name x ≠ name o := by
            intro heq
            rw [heq] at hmem
            exact hnodup.1 hmem
          rw [Dict.get?_set, if_neg hne]
          exact hobjs x hx (by simp [hmem]))
      refine ⟨objs', ?_, fun id => (hkeys id).trans (hsome id), ?_, ?_⟩
      · rw [addAllRelationships, hget]
        dsimp only
        rw [hrels]
        exact hrun
      · intro id hid
        rw [List.map_cons, List.mem_cons, not_or] at hid
        rw [hother id hid.2, Dict.get?_set, if_neg hid.1]
      · intro x hx hmem
        rcases List.mem_cons.1 hmem with heq | hmem
        · obtain rfl := hinj x hx o ho heq
          refine ⟨_, ?_, hrestored⟩
          rw [hother _ hnodup.1, Dict.get?_set, if_pos rfl]
        · exact hrest x hx hmem

end Importer

end Dump
end ContestManagement
