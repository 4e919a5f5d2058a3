import ContestManagement.Dump.ImportRuns

/-!
# A dump restores what it was taken from

A full export, and its import as a full restore into an empty database.
-/

namespace ContestManagement
namespace Dump

open Lib

variable {Doc : Type} {ip : Ipaddress} {O : Type} {schema : Schema Doc ip} {g : Graph schema O}

/-! ## A full restore -/

theorem filterValues_of_forall {κ β : Type} {p : β → Bool} (d : Dict κ β) (h : ∀ value, p value) :
    d.filterValues p = d := by
  obtain ⟨items, distinct⟩ := d
  simp [Dict.filterValues, h]

/-- The items are read back in another order. -/
theorem Data.jsonLoad_perm (dump : Data Doc ip) : dump.jsonLoad.Perm dump.datas.items :=
  List.mergeSort_perm _ _

/-- A dump in which the data of each object are under its name. -/
structure IsDump (g : Graph schema O) (name : O → String) (ids : List O) (dump : Data Doc ip) :
    Prop where
  version : dump.version = modelVersion
  keys : dump.datas.keys = ids.map name
  datas : ∀ o ∈ ids, ∃ data, dump.datas.get? (name o) = some data ∧ IsData g noSkips name o data

variable {name : O → String} {ids : List O} {dump : Data Doc ip}

/-- Both passes of a full restore succeed, and each object is restored under its name. -/
theorem doImport_spec (h : IsDump g name ids dump)
    (hinj : ∀ o ∈ ids, ∀ x ∈ ids, name o = name x → o = x)
    (hclosed : ∀ o ∈ ids, ∀ x ∈ g.links o, x ∈ ids) (haccepts : ∀ o ∈ ids, g.Accepted o)
    (hobjects : ∀ id ∈ dump.objects, id ∈ ids.map name)
    (update : Nat → Data Doc ip → Data Doc ip) :
    ∃ objs, doImport schema update noSkips true dump = some (.ok ⟨objs, dump.objects⟩) ∧
      ∀ o ∈ ids, ∃ obj, objs.get? (name o) = some obj ∧ IsRestored g name o obj := by
  have hperm := dump.jsonLoad_perm
  have hkeys : ∀ id, id ∈ dump.jsonLoad.map Prod.fst ↔ id ∈ ids.map name := by
    intro id
    rw [(hperm.map Prod.fst).mem_iff, ← h.keys]
    rfl
  have hnodup : (dump.jsonLoad.map Prod.fst).Nodup :=
    ((hperm.map Prod.fst).nodup_iff).2 dump.datas.distinct
  have hitems : ∀ item ∈ dump.jsonLoad,
      ∃ o ∈ ids, item.1 = name o ∧ IsData g noSkips name o item.2 := by
    rintro ⟨id, data⟩ hitem
    obtain ⟨o, ho, rfl⟩ := List.mem_map.1 ((hkeys id).1 (List.mem_map_of_mem hitem))
    obtain ⟨data', hget, hdata⟩ := h.datas o ho
    have hget' := Dict.mem_items_iff.1 (hperm.mem_iff.1 hitem)
    obtain rfl : data' = data := Option.some.inj (hget.symm.trans hget')
    exact ⟨o, ho, rfl, hdata⟩
  obtain ⟨objs, hobjs, hsome, hobj⟩ := Importer.importObjects_spec
    (fun id obj => ∀ o ∈ ids, name o = id → obj = g.object o) dump.jsonLoad .empty
    (fun item hitem => by
      obtain ⟨o, ho, hid, hdata⟩ := hitems item hitem
      refine ⟨g.object o, Importer.importObject_spec hdata (haccepts o ho), fun x hx hname => ?_⟩
      rw [hinj x hx o ho (hname.trans hid)])
    (fun id obj hget => by
      rw [Dict.get?_empty] at hget
      cases hget)
  have hpresent : ∀ o ∈ ids, (objs.get? (name o)).isSome := by
    intro o ho
    exact (hsome (name o)).2 (Or.inl ((hkeys (name o)).2 (List.mem_map_of_mem ho)))
  obtain ⟨objs', hrun, hsome', -, hrestored⟩ := Importer.addAllRelationships_spec hinj hclosed
    dump.jsonLoad objs hnodup hitems hpresent fun o ho _ => by
      obtain ⟨obj, hget⟩ := Option.isSome_iff_exists.1 (hpresent o ho)
      rw [hget, hobj (name o) obj hget o ho rfl]
  have hadded : dump.objects.filter (fun id => (objs'.get? id).isSome) = dump.objects := by
    rw [List.filter_eq_self]
    intro id hid
    obtain ⟨o, ho, rfl⟩ := List.mem_map.1 (hobjects id hid)
    exact (hsome' (name o)).2 (hpresent o ho)
  refine ⟨objs', ?_, fun o ho => hrestored o ho ((hkeys (name o)).2 (List.mem_map_of_mem ho))⟩
  have hremoves : objs.filterValues (fun obj => !noSkips.removes obj.cls.name) = objs :=
    filterValues_of_forall objs fun obj => by rw [removes_noSkips]; rfl
  unfold doImport
  rw [h.version, if_neg (Nat.lt_irrefl _), Nat.sub_self, List.range'_zero, List.foldl_nil]
  dsimp only
  rw [hobjs]
  dsimp only
  rw [if_pos rfl, hremoves, hrun]
  dsimp only [Except.map]
  rw [hadded]

/-- What is stored are the objects that can be reached, under their names. -/
theorem stored_iff {objs : Dict String (NewObject Doc ip)} {added : List String} {roots : List O}
    (hadded : ∀ id, id ∈ added ↔ ∃ o ∈ roots, name o = id)
    (hrestored : ∀ o, Worklist.Reachable g.links roots o →
      ∃ obj, objs.get? (name o) = some obj ∧ IsRestored g name o obj) {id : String} :
    (⟨objs, added⟩ : Restored Doc ip).Stored id ↔
      ∃ o, Worklist.Reachable g.links roots o ∧ name o = id := by
  refine Worklist.reachable_map_iff hadded fun o ho id => ?_
  obtain ⟨obj, hget, hobj⟩ := hrestored o ho
  dsimp only
  rw [hget]
  exact hobj.mem_targets_iff

/-- The export of a finite graph comes to its end with the objects that can be reached, each once;
its import stores a graph that is isomorphic to theirs. -/
theorem import_restores_export [Fintype O] [DecidableEq O] (g : Graph schema O) (roots : List O)
    {fuel : Nat} (hfuel : Fintype.card O ≤ fuel)
    (haccepts : ∀ o, Worklist.Reachable g.links roots o → g.Accepted o)
    (update : Nat → Data Doc ip → Data Doc ip) :
    ∃ (ids : List O) (dump : Data Doc ip) (restored : Restored Doc ip),
      Exporter.doExport g noSkips fuel roots = some (.ok dump) ∧
      ids.Nodup ∧ (∀ o, o ∈ ids ↔ Worklist.Reachable g.links roots o) ∧
      dump.datas.keys = ids.map (idOf ids) ∧
      (∀ o ∈ ids, ∃ data, dump.datas.get? (idOf ids o) = some data ∧
        IsData g noSkips (idOf ids) o data) ∧
      doImport schema update noSkips true dump = some (.ok restored) ∧
      Set.BijOn (idOf ids) {o | Worklist.Reachable g.links roots o} {id | restored.Stored id} ∧
      ∀ o, Worklist.Reachable g.links roots o →
        ∃ obj, restored.objs.get? (idOf ids o) = some obj ∧ IsRestored g (idOf ids) o obj := by
  obtain ⟨ids, datas, hexport, hnodup, hids, hinitial, hkeys, hdatas⟩ :=
    Exporter.doExport_spec g noSkips roots hfuel
  rw [Graph.next_noSkips] at hids
  have hinj : ∀ o ∈ ids, ∀ x ∈ ids, idOf ids o = idOf ids x → o = x :=
    fun o ho x _ heq => idOf_inj ho heq
  have hclosed : ∀ o ∈ ids, ∀ x ∈ g.links o, x ∈ ids :=
    fun o ho x hx => (hids x).2 (((hids o).1 ho).step hx)
  have hdump : IsDump g (idOf ids) ids
      ⟨(Worklist.discover [] roots).map (idOf ids), modelVersion, datas⟩ := ⟨rfl, hkeys, hdatas⟩
  obtain ⟨objs, himport, hrestored⟩ := doImport_spec hdump hinj hclosed
    (fun o ho => haccepts o ((hids o).1 ho)) (fun id hid => (hinitial.map (idOf ids)).subset hid) update
  have hstored : ∀ id, (⟨objs, (Worklist.discover [] roots).map (idOf ids)⟩ :
      Restored Doc ip).Stored id ↔
        ∃ o, Worklist.Reachable g.links roots o ∧ idOf ids o = id := by
    intro id
    refine stored_iff (fun id => ?_) fun o ho => hrestored o ((hids o).2 ho)
    rw [List.mem_map]
    constructor
    · rintro ⟨o, ho, heq⟩
      rcases Worklist.mem_discover.1 ho with hnil | hroot
      · cases hnil
      · exact ⟨o, hroot, heq⟩
    · rintro ⟨o, ho, heq⟩
      exact ⟨o, Worklist.mem_discover.2 (Or.inr ho), heq⟩
  refine ⟨ids, _, _, hexport, hnodup, hids, hkeys, hdatas, himport, ⟨?_, ?_, ?_⟩,
    fun o ho => hrestored o ((hids o).2 ho)⟩
  · exact fun o ho => (hstored _).2 ⟨o, ho, rfl⟩
  · exact fun o ho x hx heq => hinj o ((hids o).2 ho) x ((hids x).2 hx) heq
  · exact fun id hid => (hstored id).1 hid

/-! ## A contest and its task -/

/-- Two private networks. -/
def privateNetworks : Ipaddress where
  Network := Bool
  str n := if n then "10.0.0.0/8" else "192.168.0.0/16"
  ipNetwork text :=
    if text = "10.0.0.0/8" then some true
    else if text = "192.168.0.0/16" then some false
    else none
  ipNetwork_str n := by cases n <;> decide

def contestClass : ClassDef String privateNetworks where
  name := "Contest"
  cols := [⟨"name", .string, false, none⟩, ⟨"languages", .array .string true, false, none⟩]
  rels := [⟨"ranking_group", "RankingGroup"⟩, ⟨"tasks", "Task"⟩]
  distinct := by decide

def taskClass : ClassDef String privateNetworks where
  name := "Task"
  cols := [⟨"name", .string, false, none⟩]
  rels := [⟨"contest", "Contest"⟩]
  distinct := by decide

def rankingGroupClass : ClassDef String privateNetworks where
  name := "RankingGroup"
  cols := [⟨"name", .string, false, none⟩]
  rels := []
  distinct := by decide

def contestSchema : Schema String privateNetworks where
  classHook name :=
    if name = "Contest" then some contestClass
    else if name = "Task" then some taskClass
    else if name = "RankingGroup" then some rankingGroupClass
    else none
  name_eq name cls h := by
    split at h
    · next hname => rw [← Option.some.inj h, hname]; rfl
    split at h
    · next hname => rw [← Option.some.inj h, hname]; rfl
    split at h
    · next hname => rw [← Option.some.inj h, hname]; rfl
    · cases h

/-- A contest (0) with one task (1), in a ranking group (2). -/
def contestGraph (languages : List (PyObj String privateNetworks.Network))
    (h : ∀ language ∈ languages, ColumnType.string.Holds language) :
    Graph contestSchema (Fin 3) where
  cls := ![contestClass, taskClass, rankingGroupClass]
  known o := by fin_cases o <;> rfl
  col o key :=
    if o = 0 ∧ key = "languages" then .list languages
    else .str (!["ioi", "apples", "finals"] o)
  rel o key :=
    if o = 0 ∧ key = "tasks" then .many [1]
    else if o = 0 ∧ key = "ranking_group" then .one 2
    else if o = 1 ∧ key = "contest" then .one 0
    else .none
  holds o prp hprp := by
    fin_cases o
    · simp [contestClass] at hprp
      rcases hprp with rfl | rfl
      · simp [ColumnType.Holds]
      · exact h
    · simp [taskClass] at hprp
      subst hprp
      simp [ColumnType.Holds]
    · simp [rankingGroupClass] at hprp
      subst hprp
      simp [ColumnType.Holds]
  related o prp hprp x hx := by
    fin_cases o
    · simp [contestClass] at hprp
      rcases hprp with rfl | rfl
      · simp [RelValue.targets] at hx
        subst hx
        rfl
      · simp [RelValue.targets] at hx
        subst hx
        rfl
    · simp [taskClass] at hprp
      subst hprp
      simp [RelValue.targets] at hx
      subst hx
      rfl
    · simp [rankingGroupClass] at hprp

theorem import_restores_export_contest :
    ∃ (ids : List (Fin 3)) (dump : Data String privateNetworks)
      (restored : Restored String privateNetworks),
      Exporter.doExport (contestGraph [.str "C++20 / g++"] (by simp [ColumnType.Holds])) noSkips 3 [0]
        = some (.ok dump) ∧
      doImport contestSchema (fun _ dump => dump) noSkips true dump = some (.ok restored) ∧
      Set.BijOn (idOf ids)
        {o | Worklist.Reachable
          (contestGraph [.str "C++20 / g++"] (by simp [ColumnType.Holds])).links [0] o}
        {id | restored.Stored id} := by
  obtain ⟨ids, dump, restored, hexport, -, -, -, -, himport, hstored, -⟩ :=
    import_restores_export (contestGraph [.str "C++20 / g++"] (by simp [ColumnType.Holds])) [0]
      (Nat.le_refl _) (fun o _ => by
        intro prp hprp
        fin_cases o
        · simp [contestGraph, contestClass] at hprp
          rcases hprp with rfl | rfl <;> rfl
        · simp [contestGraph, taskClass] at hprp
          subst hprp
          rfl
        · simp [contestGraph, rankingGroupClass] at hprp
          subst hprp
          rfl) fun _ dump => dump
  exact ⟨ids, dump, restored, hexport, himport, hstored⟩

/-- A `NULL` in an array is exported, but no object can be made of it. -/
theorem null_in_array_not_restored :
    ∃ dump : Data String privateNetworks,
      Exporter.doExport (contestGraph [.none] (by simp [ColumnType.Holds])) noSkips 3 [0] =
        some (.ok dump) ∧
      doImport contestSchema (fun _ dump => dump) noSkips true dump = some (.error .typeError) := by
  refine ⟨_, rfl, ?_⟩
  have hle : idOf [(0 : Fin 3), 1] 0 ≤ idOf [(0 : Fin 3), 1] 1 := by decide
  unfold doImport Data.jsonLoad
  rw [if_neg (by decide)]
  dsimp only [modelVersion]
  rw [Nat.sub_self, List.range'_zero, List.foldl_nil, List.mergeSort_of_pairwise]
  · rfl
  · exact List.pairwise_pair.2 (decide_eq_true hle)

end Dump
end ContestManagement
