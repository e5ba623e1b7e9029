import Mathlib.Data.List.Basic
import Mathlib.Logic.Relation

/-! # Search with a visited set

A depth-first search for a marked place in a finite graph, with one set of visited nodes for the
whole search. A node is visited once and an answer is not repeated, so a second visit says that
nothing was found. That is right although the first visit may still be going on: `search_iff` says
that the search finds a mark exactly when one can be reached.
-/
namespace OcRelay.Foundations
set_option autoImplicit false

/-- What a node shows, in the order in which it is looked at: a place, or a further node. -/
inductive Probe (V : Type) where
  | place (marked : Bool)
  | node (v : V)
  deriving DecidableEq

/-! ## What can be reached -/

section Reach
variable {V : Type}

def Edge (probes : V → List (Probe V)) (v w : V) : Prop := .node w ∈ probes v

/-- A marked place can be reached from `v`. -/
def Reaches (probes : V → List (Probe V)) (v : V) : Prop :=
  ∃ w, Relation.ReflTransGen (Edge probes) v w ∧ .place true ∈ probes w

variable {probes : V → List (Probe V)}

theorem Reaches.here {v : V} (h : .place true ∈ probes v) : Reaches probes v := ⟨v, .refl, h⟩

theorem Reaches.edge {v w : V} (hedge : Edge probes v w) (h : Reaches probes w) :
    Reaches probes v := by
  obtain ⟨u, hpath, hmark⟩ := h
  exact ⟨u, .head hedge hpath, hmark⟩

/-- The nodes of `visited'` that are new show no mark, and lead to nodes of `visited'` only. -/
structure Explored (probes : V → List (Probe V)) (visited visited' : List V) : Prop where
  grows : visited ⊆ visited'
  clean : ∀ w ∈ visited', w ∉ visited →
    .place true ∉ probes w ∧ ∀ u, Edge probes w u → u ∈ visited'

theorem Explored.refl (visited : List V) : Explored probes visited visited :=
  ⟨List.Subset.refl _, fun _ hw hnew => absurd hw hnew⟩

theorem Explored.trans {visited₀ visited₁ visited₂ : List V} (h : Explored probes visited₀ visited₁)
    (h' : Explored probes visited₁ visited₂) : Explored probes visited₀ visited₂ where
  grows := List.Subset.trans h.grows h'.grows
  clean := by
    intro w hw hnew
    by_cases hold : w ∈ visited₁
    · obtain ⟨hplace, hedges⟩ := h.clean w hold hnew
      exact ⟨hplace, fun u hu => h'.grows (hedges u hu)⟩
    · exact h'.clean w hw hold

theorem Explored.reachable {visited : List V} (h : Explored probes [] visited) {v w : V}
    (hpath : Relation.ReflTransGen (Edge probes) v w) (hv : v ∈ visited) : w ∈ visited := by
  induction hpath with
  | refl => exact hv
  | tail _ hedge ih => exact (h.clean _ ih List.not_mem_nil).2 _ hedge

/-! ## The probes of one node -/

/-- What a visit of `v` answers. -/
structure Answers (probes : V → List (Probe V)) (v : V) (visited : List V) (found : Bool)
    (visited' : List V) : Prop where
  reaches : found = true → Reaches probes v
  explored : found = false → Explored probes visited visited' ∧ v ∈ visited'

/-- The loop over the probes of a node. -/
def scan (visit : V → List V → Option (Bool × List V)) :
    List (Probe V) → List V → Option (Bool × List V)
  | [], visited => some (false, visited)
  | .place marked :: rest, visited => if marked then some (true, visited) else scan visit rest visited
  | .node v :: rest, visited =>
      match visit v visited with
      | none => none
      | some (found, visited) => if found then some (true, visited) else scan visit rest visited

/-- What a scan of the probes of a node answers, if each of its visits is right. -/
theorem scan_answers {visit : V → List V → Option (Bool × List V)} {visited₀ : List V}
    (ps : List (Probe V)) (visited : List V) (hle : visited₀ ⊆ visited)
    (hvisit : ∀ w, .node w ∈ ps → ∀ visited, visited₀ ⊆ visited → ∃ found visited',
      visit w visited = some (found, visited') ∧ Answers probes w visited found visited') :
    ∃ found visited', scan visit ps visited = some (found, visited') ∧
      (found = true → .place true ∈ ps ∨ ∃ w, .node w ∈ ps ∧ Reaches probes w) ∧
      (found = false → Explored probes visited visited' ∧ .place true ∉ ps ∧
        ∀ w, .node w ∈ ps → w ∈ visited') := by
  induction ps generalizing visited with
  | nil => exact ⟨false, visited, rfl, nofun, fun _ => ⟨.refl _, by simp, by simp⟩⟩
  | cons p ps ih =>
      have hrest := fun visited hle =>
        ih visited hle fun w hw => hvisit w (List.mem_cons_of_mem p hw)
      cases p with
      | place marked =>
          cases marked with
          | true => exact ⟨true, visited, rfl, fun _ => .inl List.mem_cons_self, nofun⟩
          | false =>
              obtain ⟨found, visited', hscan, htrue, hfalse⟩ := hrest visited hle
              refine ⟨found, visited', hscan, fun hfound => ?_, fun hfound => ?_⟩
              · simpa using htrue hfound
              · simpa using hfalse hfound
      | node v =>
          obtain ⟨found, visited', hv, hanswers⟩ := hvisit v List.mem_cons_self visited hle
          cases found with
          | true =>
              refine ⟨true, visited', by rw [scan, hv]; rfl, fun _ => ?_, nofun⟩
              exact .inr ⟨v, List.mem_cons_self, hanswers.reaches rfl⟩
          | false =>
              obtain ⟨hexplored, hmem⟩ := hanswers.explored rfl
              obtain ⟨found, visited'', hscan, htrue, hfalse⟩ :=
                hrest visited' (List.Subset.trans hle hexplored.grows)
              refine ⟨found, visited'', by rw [scan, hv]; exact hscan, fun hfound => ?_,
                fun hfound => ?_⟩
              · rcases htrue hfound with hplace | ⟨w, hw, hreach⟩
                · exact .inl (List.mem_cons_of_mem _ hplace)
                · exact .inr ⟨w, List.mem_cons_of_mem _ hw, hreach⟩
              · obtain ⟨hrestExplored, hplace, hnodes⟩ := hfalse hfound
                refine ⟨hexplored.trans hrestExplored, by simpa using hplace, fun w hw => ?_⟩
                rcases List.mem_cons.mp hw with heq | hw
                · cases heq
                  exact hrestExplored.grows hmem
                · exact hnodes w hw

end Reach

/-! ## The search -/

section Search
variable {V : Type} [DecidableEq V]

/-- Whether a mark was found from `v`, and the nodes visited since; `none` if the fuel is spent. -/
def search (probes : V → List (Probe V)) : ℕ → V → List V → Option (Bool × List V)
  | 0, _, _ => none
  | fuel + 1, v, visited =>
      if v ∈ visited then some (false, visited)
      else scan (search probes fuel) (probes v) (v :: visited)

/-! ## Fuel -/

/-- How many of the nodes are still to be visited. -/
def unvisited (nodes visited : List V) : ℕ := (nodes.filter (· ∉ visited)).length

theorem unvisited_le (nodes : List V) {visited visited' : List V} (h : visited ⊆ visited') :
    unvisited nodes visited' ≤ unvisited nodes visited := by
  apply List.Sublist.length_le
  apply List.monotone_filter_right
  intro v hv
  simp only [decide_eq_true_eq] at hv ⊢
  exact fun hmem => hv (h hmem)

theorem unvisited_lt {nodes visited : List V} {v : V} (hv : v ∈ nodes) (hnew : v ∉ visited) :
    unvisited nodes (v :: visited) < unvisited nodes visited := by
  have hsplit : nodes.filter (· ∉ v :: visited) =
      (nodes.filter (· ∉ visited)).filter (· ≠ v) := by
    rw [List.filter_filter]
    apply List.filter_congr
    intro w _
    simp [not_or]
  rw [unvisited, unvisited, hsplit]
  apply List.length_filter_lt_length_iff_exists.mpr
  exact ⟨v, by simp [hv, hnew], by simp⟩

/-! ## Correctness -/

variable {probes : V → List (Probe V)}

/-- With more fuel than there are nodes to visit, the search answers. -/
theorem search_answers {nodes : List V} (hclosed : ∀ v ∈ nodes, ∀ w, Edge probes v w → w ∈ nodes)
    (fuel : ℕ) {v : V} (hv : v ∈ nodes) (visited : List V) (hfuel : unvisited nodes visited < fuel) :
    ∃ found visited', search probes fuel v visited = some (found, visited') ∧
      Answers probes v visited found visited' := by
  induction fuel generalizing v visited with
  | zero => omega
  | succ fuel ih =>
      by_cases hseen : v ∈ visited
      · refine ⟨false, visited, by rw [search, if_pos hseen], nofun, fun _ => ?_⟩
        exact ⟨.refl _, hseen⟩
      · have hless := unvisited_lt hv hseen
        obtain ⟨found, visited', hscan, htrue, hfalse⟩ := scan_answers (probes v) (v :: visited)
          (List.Subset.refl _) fun w hw visited' hle =>
            ih (hclosed v hv w hw) visited' (by have := unvisited_le nodes hle; omega)
        refine ⟨found, visited', by rw [search, if_neg hseen, hscan], fun hfound => ?_,
          fun hfound => ?_⟩
        · rcases htrue hfound with hplace | ⟨w, hw, hreach⟩
          · exact .here hplace
          · exact .edge hw hreach
        · obtain ⟨hexplored, hplace, hnodes⟩ := hfalse hfound
          have hmem : v ∈ visited' := hexplored.grows List.mem_cons_self
          refine ⟨⟨List.Subset.trans (List.subset_cons_self _ _) hexplored.grows, ?_⟩, hmem⟩
          intro w hw hnew
          by_cases heq : w = v
          · subst heq
            exact ⟨hplace, hnodes⟩
          · exact hexplored.clean w hw (by simp [heq, hnew])

theorem search_iff {nodes : List V} (hclosed : ∀ v ∈ nodes, ∀ w, Edge probes v w → w ∈ nodes) {v : V}
    (hv : v ∈ nodes) : ∃ found visited, search probes (nodes.length + 1) v [] = some (found, visited) ∧
      (found = true ↔ Reaches probes v) := by
  have hfuel : unvisited nodes [] < nodes.length + 1 := Nat.lt_succ_of_le (List.length_filter_le _ _)
  obtain ⟨found, visited, hsearch, hanswers⟩ := search_answers hclosed _ hv [] hfuel
  refine ⟨found, visited, hsearch, hanswers.reaches, fun ⟨w, hpath, hmark⟩ => ?_⟩
  by_contra hfound
  obtain ⟨hexplored, hmem⟩ := hanswers.explored (Bool.eq_false_iff.mpr hfound)
  exact (hexplored.clean w (hexplored.reachable hpath hmem) List.not_mem_nil).1 hmark

end Search

end OcRelay.Foundations
