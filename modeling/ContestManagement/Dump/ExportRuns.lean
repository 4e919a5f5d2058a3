import ContestManagement.Dump.Exporter

/-!
# What an export writes

The objects that have an id and are not exported yet are the queue: the export is a search of the
graph.  It comes to its end within as many rounds as there are objects, and then it has written the
data of each object that can be reached, once, under its id.
-/

namespace ContestManagement
namespace Dump

open Lib

variable {Doc : Type} {ip : Ipaddress} {O : Type}

/-! ## The queue -/

namespace Exporter

variable {s t u : Exporter O}

/-- The ids and the queue grow by the same objects. -/
def Grows (s t : Exporter O) : Prop :=
  ∃ more, t.ids = s.ids ++ more ∧ t.queue = s.queue ++ more

theorem Grows.refl (s : Exporter O) : Grows s s :=
  ⟨[], (List.append_nil _).symm, (List.append_nil _).symm⟩

theorem Grows.trans (hst : Grows s t) (htu : Grows t u) : Grows s u := by
  obtain ⟨more, hids, hqueue⟩ := hst
  obtain ⟨rest, hids', hqueue'⟩ := htu
  refine ⟨more ++ rest, ?_, ?_⟩
  · rw [hids', hids, List.append_assoc]
  · rw [hqueue', hqueue, List.append_assoc]

theorem Grows.isPrefix (h : Grows s t) : s.ids <+: t.ids := by
  obtain ⟨more, hids, -⟩ := h
  exact ⟨more, hids.symm⟩

end Exporter

/-! ## The data of an object -/

/-- The value of a relationship by names. -/
def RelValue.data (name : O → String) : RelValue O → PyObj Doc ip.Network
  | .none => .none
  | .one o => .str (name o)
  | .many os => .list (os.map fun o => .str (name o))
  | .keyed os => .dict (os.items.map fun item => (item.1, .str (name item.2)))

theorem RelValue.data_congr {name name' : O → String} {value : RelValue O}
    (h : ∀ o ∈ value.targets, name o = name' o) :
    (value.data name : PyObj Doc ip.Network) = value.data name' := by
  cases value with
  | none => rfl
  | one o => rw [RelValue.data, RelValue.data, h o (by simp [RelValue.targets])]
  | many os =>
      have hmap : (os.map fun o => (PyObj.str (name o) : PyObj Doc ip.Network)) =
          os.map fun o => .str (name' o) :=
        List.map_congr_left fun o ho => by rw [h o ho]
      rw [RelValue.data, RelValue.data, hmap]
  | keyed os =>
      have hmap : (os.items.map fun item =>
          (item.1, (PyObj.str (name item.2) : PyObj Doc ip.Network))) =
            os.items.map fun item => (item.1, .str (name' item.2)) :=
        List.map_congr_left fun item hitem => by rw [h item.2 (List.mem_map_of_mem hitem)]
      rw [RelValue.data, RelValue.data, hmap]

/-! ## The ids -/

variable [DecidableEq O]

theorem idOf_of_initial {ids more : List O} (h : ids <+: more) {o : O} (ho : o ∈ ids) :
    idOf more o = idOf ids o := by
  rw [idOf, idOf, Worklist.idxOf_of_prefix h ho]

/-- A number can be read back from its digits. -/
theorem eq_of_toString_eq {m n : Nat} (h : toString m = toString n) : m = n := by
  have hdigits : Nat.toDigits 10 m = Nat.toDigits 10 n := by
    simpa using congrArg String.toList h
  rw [← Nat.ofDigitChars_ten_toDigits (n := m), hdigits, Nat.ofDigitChars_ten_toDigits]

theorem idOf_inj {ids : List O} {o x : O} (ho : o ∈ ids) (h : idOf ids o = idOf ids x) : o = x :=
  (List.idxOf_inj ho).1 (eq_of_toString_eq h)

theorem map_idOf_of_initial {ids more os : List O} (h : ids <+: more) (hos : ∀ o ∈ os, o ∈ ids) :
    os.map (idOf more) = os.map (idOf ids) :=
  List.map_congr_left fun o ho => idOf_of_initial h (hos o ho)

namespace Exporter

theorem getId_spec (s : Exporter O) (o : O) :
    Grows s (s.getId o).1 ∧ (s.getId o).1.ids = Worklist.discover s.ids [o] ∧
      (s.getId o).2 = idOf (s.getId o).1.ids o := by
  unfold getId
  by_cases h : o ∈ s.ids
  · rw [if_pos h]
    refine ⟨.refl s, ?_, rfl⟩
    rw [Worklist.discover, if_pos h]
    rfl
  · rw [if_neg h]
    refine ⟨⟨[o], rfl, rfl⟩, ?_, ?_⟩
    · rw [Worklist.discover, if_neg h]
      rfl
    · dsimp only
      rw [idOf, List.idxOf_append_of_notMem h, List.idxOf_cons_self, Nat.add_zero]

theorem getIds_spec (s : Exporter O) (os : List O) :
    Grows s (s.getIds os).1 ∧ (s.getIds os).1.ids = Worklist.discover s.ids os ∧
      (s.getIds os).2 = os.map (idOf (s.getIds os).1.ids) := by
  induction os generalizing s with
  | nil => exact ⟨.refl s, rfl, rfl⟩
  | cons o rest ih =>
      obtain ⟨hgrows, hids, hid⟩ := getId_spec s o
      obtain ⟨hgrows', hids', hrest⟩ := ih (s.getId o).1
      refine ⟨hgrows.trans hgrows', ?_, ?_⟩
      · change ((s.getId o).1.getIds rest).1.ids = _
        rw [hids', hids, ← Worklist.discover_append]
        rfl
      · change (s.getId o).2 :: ((s.getId o).1.getIds rest).2 = _
        rw [hrest, hid, List.map_cons]
        congr 1
        refine (idOf_of_initial hgrows'.isPrefix ?_).symm
        rw [hids, Worklist.mem_discover]
        simp

end Exporter

/-! ## The export of an object -/

variable {schema : Schema Doc ip} (g : Graph schema O) (skips : Skips)

/-- The objects to which the exported relationships lead. -/
def Graph.relTargets (o : O) (rels : List RelProp) : List O :=
  rels.flatMap fun prp =>
    if skips.leavesOut prp.otherClass then [] else (g.rel o prp.key).targets

def Graph.next (o : O) : List O := g.relTargets skips o (g.cls o).rels

/-- The data are those of an object, with the other objects by their names. -/
structure IsData (name : O → String) (o : O) (data : ObjectData Doc ip) : Prop where
  cls : data.get? "_class" = some (.str (g.cls o).name)
  cols : ∀ prp ∈ (g.cls o).cols, ∃ encoded,
    encodeValue ip prp.type (g.col o prp.key) = .ok encoded ∧ data.get? prp.key = some encoded
  rels : ∀ prp ∈ (g.cls o).rels, data.get? prp.key =
    if skips.leavesOut prp.otherClass then none else some ((g.rel o prp.key).data name)

variable {g skips}

omit [DecidableEq O] in
theorem IsData.congr {name name' : O → String} {o : O} {data : ObjectData Doc ip}
    (h : IsData g skips name o data) (hname : ∀ x ∈ g.next skips o, name x = name' x) :
    IsData g skips name' o data := by
  refine ⟨h.cls, h.cols, fun prp hprp => ?_⟩
  rw [h.rels prp hprp]
  by_cases hskip : skips.leavesOut prp.otherClass = true
  · rw [if_pos hskip, if_pos hskip]
  · rw [if_neg hskip, if_neg hskip, RelValue.data_congr fun x hx => hname x ?_]
    refine List.mem_flatMap.2 ⟨prp, hprp, ?_⟩
    rw [if_neg hskip]
    exact hx

namespace Exporter

variable {s : Exporter O} {o : O}

theorem exportRel_spec (s : Exporter O) {otherClass : String} {value : RelValue O}
    (hclass : ∀ x ∈ value.targets, (g.cls x).name = otherClass) :
    ∃ t, exportRel g s otherClass value = .ok (t, value.data (idOf t.ids)) ∧ Grows s t ∧
      t.ids = Worklist.discover s.ids value.targets := by
  cases value with
  | none => exact ⟨s, rfl, .refl s, rfl⟩
  | one o =>
      obtain ⟨hgrows, hids, hid⟩ := getId_spec s o
      refine ⟨(s.getId o).1, ?_, hgrows, hids⟩
      rw [exportRel, if_pos (hclass o (by simp [RelValue.targets]))]
      dsimp only
      rw [hid, RelValue.data]
  | many os =>
      obtain ⟨hgrows, hids, hid⟩ := getIds_spec s os
      refine ⟨(s.getIds os).1, ?_, hgrows, hids⟩
      rw [exportRel]
      dsimp only
      rw [hid, RelValue.data, List.map_map]
      rfl
  | keyed os =>
      obtain ⟨hgrows, hids, hid⟩ := getIds_spec s (os.items.map Prod.snd)
      refine ⟨(s.getIds (os.items.map Prod.snd)).1, ?_, hgrows, hids⟩
      rw [exportRel]
      dsimp only
      rw [hid, RelValue.data, List.map_map, List.map_map, Dict.keys, List.zip_map']
      rfl

omit [DecidableEq O] in
theorem exportCols_spec (o : O) (cols : List (ColProp Doc ip)) (data : ObjectData Doc ip)
    (hholds : ∀ prp ∈ cols, prp.type.Holds (g.col o prp.key))
    (hnodup : (cols.map (·.key)).Nodup) :
    ∃ data', exportCols g o cols data = .ok data' ∧
      (∀ prp ∈ cols, ∃ encoded, encodeValue ip prp.type (g.col o prp.key) = .ok encoded ∧
        data'.get? prp.key = some encoded) ∧
      ∀ key, key ∉ cols.map (·.key) → data'.get? key = data.get? key := by
  induction cols generalizing data with
  | nil =>
      refine ⟨data, rfl, ?_, fun _ _ => rfl⟩
      intro prp hprp
      cases hprp
  | cons prp rest ih =>
      rw [List.map_cons, List.nodup_cons] at hnodup
      obtain ⟨encoded, hencoded, -⟩ := decodeValue_encodeValue prp.type (hholds prp (by simp))
      obtain ⟨data', hdata', hcols, hother⟩ := ih (data.set prp.key encoded)
        (fun other hmem => hholds other (by simp [hmem])) hnodup.2
      refine ⟨data', ?_, ?_, ?_⟩
      · rw [exportCols, hencoded]
        exact hdata'
      · intro other hmem
        rcases List.mem_cons.1 hmem with rfl | hrest
        · refine ⟨encoded, hencoded, ?_⟩
          rw [hother _ hnodup.1, Dict.get?_set, if_pos rfl]
        · exact hcols other hrest
      · intro key hkey
        rw [List.map_cons, List.mem_cons, not_or] at hkey
        rw [hother key hkey.2, Dict.get?_set, if_neg hkey.1]

theorem exportRels_spec (o : O) (rels : List RelProp) (s : Exporter O) (data : ObjectData Doc ip)
    (hrelated : ∀ prp ∈ rels, ∀ x ∈ (g.rel o prp.key).targets, (g.cls x).name = prp.otherClass)
    (hnodup : (rels.map (·.key)).Nodup) (hnone : ∀ prp ∈ rels, data.get? prp.key = none) :
    ∃ t data', exportRels g skips o rels s data = .ok (t, data') ∧ Grows s t ∧
      t.ids = Worklist.discover s.ids (g.relTargets skips o rels) ∧
      (∀ prp ∈ rels, data'.get? prp.key = if skips.leavesOut prp.otherClass then none
        else some ((g.rel o prp.key).data (idOf t.ids))) ∧
      ∀ key, key ∉ rels.map (·.key) → data'.get? key = data.get? key := by
  induction rels generalizing s data with
  | nil =>
      refine ⟨s, data, rfl, .refl s, rfl, ?_, fun _ _ => rfl⟩
      intro prp hprp
      cases hprp
  | cons prp rest ih =>
      rw [List.map_cons, List.nodup_cons] at hnodup
      have hrest : ∀ other ∈ rest, other.key ≠ prp.key := by
        intro other hmem heq
        exact hnodup.1 (heq ▸ List.mem_map_of_mem hmem)
      by_cases hskip : skips.leavesOut prp.otherClass = true
      · obtain ⟨t, data', hrun, hgrows, hids, hrels, hother⟩ := ih s data
          (fun other hmem => hrelated other (by simp [hmem])) hnodup.2
          (fun other hmem => hnone other (by simp [hmem]))
        refine ⟨t, data', ?_, hgrows, ?_, ?_, ?_⟩
        · rw [exportRels, if_pos hskip]
          exact hrun
        · rw [hids, Graph.relTargets, Graph.relTargets, List.flatMap_cons, if_pos hskip,
            List.nil_append]
        · intro other hmem
          rcases List.mem_cons.1 hmem with rfl | hmem
          · rw [if_pos hskip, hother _ hnodup.1]
            exact hnone other (by simp)
          · exact hrels other hmem
        · intro key hkey
          rw [List.map_cons, List.mem_cons, not_or] at hkey
          exact hother key hkey.2
      · obtain ⟨u, hvalue, hgrows, hids⟩ :=
          exportRel_spec (g := g) s (hrelated prp (by simp))
        obtain ⟨t, data', hrun, hgrows', hids', hrels, hother⟩ :=
          ih u (data.set prp.key ((g.rel o prp.key).data (idOf u.ids)))
            (fun other hmem => hrelated other (by simp [hmem])) hnodup.2
            (fun other hmem => by
              rw [Dict.get?_set, if_neg (hrest other hmem)]
              exact hnone other (by simp [hmem]))
        refine ⟨t, data', ?_, hgrows.trans hgrows', ?_, ?_, ?_⟩
        · rw [exportRels, if_neg hskip, hvalue]
          exact hrun
        · rw [hids', hids, ← Worklist.discover_append, Graph.relTargets, Graph.relTargets,
            List.flatMap_cons, if_neg hskip]
        · intro other hmem
          rcases List.mem_cons.1 hmem with rfl | hmem
          · rw [if_neg hskip, hother _ hnodup.1, Dict.get?_set, if_pos rfl]
            congr 1
            refine RelValue.data_congr fun x hx => (idOf_of_initial hgrows'.isPrefix ?_).symm
            rw [hids, Worklist.mem_discover]
            exact Or.inr hx
          · exact hrels other hmem
        · intro key hkey
          rw [List.map_cons, List.mem_cons, not_or] at hkey
          rw [hother key hkey.2, Dict.get?_set, if_neg hkey.1]

/-- The data of an object are written, and the objects it leads to have ids. -/
theorem exportObject_spec (s : Exporter O) (o : O) :
    ∃ t data, exportObject g skips s o = .ok (t, data) ∧ Grows s t ∧
      t.ids = Worklist.discover s.ids (g.next skips o) ∧ IsData g skips (idOf t.ids) o data := by
  have hdistinct := (g.cls o).distinct
  rw [List.nodup_cons, List.mem_append, not_or, List.nodup_append] at hdistinct
  obtain ⟨⟨hcls, hcls'⟩, hcolKeys, hrelKeys, hdisjoint⟩ := hdistinct
  obtain ⟨data, hcols, hvalues, hother⟩ := exportCols_spec (g := g) o (g.cls o).cols
    (.singleton "_class" (.str (g.cls o).name)) (g.holds o) hcolKeys
  have hnone : ∀ prp ∈ (g.cls o).rels, data.get? prp.key = none := by
    intro prp hprp
    have hkey := List.mem_map_of_mem (f := (·.key)) hprp
    rw [hother prp.key fun hmem => hdisjoint _ hmem _ hkey rfl, Dict.get?_singleton, if_neg]
    rintro heq
    rw [← heq] at hcls'
    exact hcls' hkey
  obtain ⟨t, data', hrels, hgrows, hids, hrelValues, hother'⟩ :=
    @exportRels_spec _ _ _ _ _ g skips o (g.cls o).rels s data (g.related o) hrelKeys hnone
  refine ⟨t, data', ?_, hgrows, hids, ?_, ?_, hrelValues⟩
  · rw [exportObject, hcols]
    exact hrels
  · rw [hother' _ hcls', hother _ hcls, Dict.get?_singleton, if_pos rfl]
  · intro prp hprp
    obtain ⟨encoded, hencoded, hget⟩ := hvalues prp hprp
    refine ⟨encoded, hencoded, ?_⟩
    rw [hother' _ fun hmem => hdisjoint _ (List.mem_map_of_mem (f := (·.key)) hprp) _ hmem rfl]
    exact hget

/-! ## The loop -/

/-- The objects that are done have their data; the others that have an id are in the queue. -/
structure LoopInv (g : Graph schema O) (skips : Skips) (roots done : List O) (s : Exporter O)
    (datas : Dict String (ObjectData Doc ip)) : Prop where
  queue : s.ids = done ++ s.queue
  searched : Worklist.Searched (g.next skips) roots done s.ids
  keys : datas.keys = done.map (idOf s.ids)
  datas : ∀ o ∈ done, ∃ data, datas.get? (idOf s.ids o) = some data ∧
    IsData g skips (idOf s.ids) o data

variable {roots done : List O} {datas : Dict String (ObjectData Doc ip)}

theorem LoopInv.step {ids rest : List O} (h : LoopInv g skips roots done ⟨ids, o :: rest⟩ datas) :
    ∃ t data, exportObject g skips ⟨ids, rest⟩ o = .ok (t, data) ∧ ids <+: t.ids ∧
      LoopInv g skips roots (done ++ [o]) t (datas.set (idOf t.ids o) data) := by
  obtain ⟨t, data, hrun, hgrows, hids, hdata⟩ :=
    @exportObject_spec _ _ _ _ _ g skips ⟨ids, rest⟩ o
  have hids' : t.ids = Worklist.discover ids (g.next skips o) := hids
  have hinitial : ids <+: t.ids := hgrows.isPrefix
  have hqueue : ids = done ++ o :: rest := h.queue
  have hold : ∀ x ∈ done, x ∈ ids := by
    intro x hx
    rw [hqueue]
    exact List.mem_append_left _ hx
  have ho : o ∈ ids := by
    rw [hqueue]
    simp
  have hsearched : Worklist.Searched (g.next skips) roots (done ++ [o]) t.ids := by
    rw [hids']
    exact h.searched.step hqueue
  have hkeys : done.map (idOf t.ids) = datas.keys := by
    rw [h.keys]
    exact map_idOf_of_initial hinitial hold
  have hfresh : idOf t.ids o ∉ datas.keys := by
    rw [← hkeys, List.mem_map]
    rintro ⟨x, hx, heq⟩
    obtain rfl := idOf_inj (hinitial.subset (hold x hx)) heq
    have hnodup : ids.Nodup := h.searched.nodup
    rw [hqueue, List.nodup_append] at hnodup
    exact hnodup.2.2 x hx x (by simp) rfl
  have hnone : datas.get? (idOf t.ids o) = none := by
    rw [Option.eq_none_iff_forall_ne_some]
    intro value hvalue
    exact hfresh (Dict.mem_keys_iff.2 ⟨value, hvalue⟩)
  refine ⟨t, data, hrun, hinitial, ?_, hsearched, ?_, ?_⟩
  · obtain ⟨more, hmore, hmore'⟩ := hgrows
    rw [hmore, hmore']
    dsimp only
    rw [hqueue]
    simp
  · rw [Dict.keys_set_of_none hnone, List.map_append, hkeys]
    rfl
  · intro x hx
    rcases List.mem_append.1 hx with hdone | hnew
    · obtain ⟨data', hdata', hisData⟩ := h.datas x hdone
      refine ⟨data', ?_, ?_⟩
      · have hne : idOf t.ids x ≠ idOf t.ids o := by
          intro heq
          refine hfresh ?_
          rw [← hkeys, ← heq]
          exact List.mem_map_of_mem hdone
        rw [Dict.get?_set, if_neg hne, idOf_of_initial hinitial (hold x hdone)]
        exact hdata'
      · refine hisData.congr fun y hy => (idOf_of_initial hinitial ?_).symm
        exact h.searched.closed x hdone y hy
    · rw [List.mem_singleton] at hnew
      subst hnew
      exact ⟨data, by rw [Dict.get?_set, if_pos rfl], hdata⟩

/-- There are as many rounds as there are objects, at most. -/
theorem exportLoop_spec [Fintype O] (fuel : Nat) :
    ∀ (done : List O) (s : Exporter O) (datas : Dict String (ObjectData Doc ip)),
      LoopInv g skips roots done s datas → Fintype.card O ≤ fuel + done.length →
      ∃ ids datas', exportLoop g skips fuel s datas = some (.ok datas') ∧ s.ids <+: ids ∧
        LoopInv g skips roots ids ⟨ids, []⟩ datas' := by
  induction fuel with
  | zero =>
      rintro done ⟨ids, queue⟩ datas h hfuel
      cases queue with
      | nil =>
          obtain rfl : ids = done := by simpa using h.queue
          exact ⟨ids, datas, rfl, List.prefix_refl ids, h⟩
      | cons o rest =>
          -- All objects are done, and one of them is in the queue.
          have hqueue : ids = done ++ o :: rest := h.queue
          have hlength := h.searched.nodup.length_le_card
          dsimp only at hlength
          rw [hqueue, List.length_append, List.length_cons] at hlength
          omega
  | succ fuel ih =>
      rintro done ⟨ids, queue⟩ datas h hfuel
      cases queue with
      | nil =>
          obtain rfl : ids = done := by simpa using h.queue
          exact ⟨ids, datas, rfl, List.prefix_refl ids, h⟩
      | cons o rest =>
          obtain ⟨t, data, hrun, hinitial, ht⟩ := h.step
          obtain ⟨all, datas', hloop, hinitial', hend⟩ := ih (done ++ [o]) t _ ht (by
            rw [List.length_append, List.length_singleton]
            omega)
          refine ⟨all, datas', ?_, hinitial.trans hinitial', hend⟩
          rw [exportLoop, hrun]
          exact hloop

/-- An export comes to its end, and writes the data of each object that can be reached under its
id, once. -/
theorem doExport_spec [Fintype O] (g : Graph schema O) (skips : Skips) (roots : List O) {fuel : Nat}
    (hfuel : Fintype.card O ≤ fuel) :
    ∃ (ids : List O) (datas : Dict String (ObjectData Doc ip)),
      doExport g skips fuel roots = some (.ok
        ⟨(Worklist.discover [] roots).map (idOf ids), modelVersion, datas⟩) ∧
      ids.Nodup ∧ (∀ o, o ∈ ids ↔ Worklist.Reachable (g.next skips) roots o) ∧
      (Worklist.discover [] roots) <+: ids ∧ datas.keys = ids.map (idOf ids) ∧
      ∀ o ∈ ids, ∃ data, datas.get? (idOf ids o) = some data ∧
        IsData g skips (idOf ids) o data := by
  obtain ⟨hgrows, hids, -⟩ := getIds_spec (⟨[], []⟩ : Exporter O) roots
  have hids' : (getIds ⟨[], []⟩ roots).1.ids = Worklist.discover [] roots := hids
  have hstart : LoopInv g skips roots [] (getIds ⟨[], []⟩ roots).1 .empty := by
    refine ⟨?_, ?_, rfl, ?_⟩
    · obtain ⟨more, hmore, hmore'⟩ := hgrows
      rw [hmore, hmore']
      rfl
    · rw [hids']
      exact .start _ _
    · intro o ho
      cases ho
  obtain ⟨ids, datas, hloop, hinitial, hend⟩ :=
    exportLoop_spec fuel [] _ _ hstart (by simpa using hfuel)
  rw [hids'] at hinitial
  refine ⟨ids, datas, ?_, hend.searched.nodup, fun o => hend.searched.mem_iff, hinitial,
    hend.keys, hend.datas⟩
  change (exportLoop g skips fuel (getIds ⟨[], []⟩ roots).1 .empty).map _ = _
  rw [hloop, Option.map_some, hids', map_idOf_of_initial hinitial fun o ho => ho]
  rfl

end Exporter

end Dump
end ContestManagement
