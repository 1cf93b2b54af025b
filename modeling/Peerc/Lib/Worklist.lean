import Mathlib.Logic.Relation
import Mathlib.Algebra.Order.BigOperators.Group.List
import Mathlib.Algebra.Order.Ring.Nat
import Mathlib.Data.List.Nodup
import Mathlib.Tactic.Tauto

open Relation

namespace Worklist

variable {α : Type} {next : α → List α} {nodes queue visited result : List α} {x y : α}

-- The loop `while queue: cur = queue.pop(); if cur not in visited: visit cur and push next(cur)`.
-- The head of `queue` is the element popped next.
def explore [DecidableEq α] (next : α → List α) : (fuel : Nat) → (queue visited : List α) → List α
  | 0,        _,            visited => visited
  | _ + 1,    [],           visited => visited
  | fuel + 1, cur :: queue, visited =>
    if cur ∈ visited then explore next fuel queue visited
    else explore next fuel ((next cur).reverse ++ queue) (visited ++ [cur])

abbrev Reach (next : α → List α) : α → α → Prop :=
  ReflTransGen fun x y => y ∈ next x

-- The number of iterations the loop can still make, when every node with neighbors is in `nodes`.
def cost [DecidableEq α] (next : α → List α) (nodes queue visited : List α) : Nat :=
  queue.length + ((nodes.filter (· ∉ visited)).map fun x => (next x).length).sum

-- The same loop without a bound on its iterations: it ends with `result` as the visited nodes.
inductive Loop (next : α → List α) : (queue visited result : List α) → Prop
  | done {visited : List α} : Loop next [] visited visited
  | skip {x : α} {queue visited result : List α} (seen : x ∈ visited)
    (rest : Loop next queue visited result) : Loop next (x :: queue) visited result
  | visit {x : α} {queue visited result : List α} (fresh : x ∉ visited)
    (rest : Loop next ((next x).reverse ++ queue) (visited ++ [x]) result) :
    Loop next (x :: queue) visited result

-- Every neighbor of a visited node has been visited or is still queued.
def Frontier (next : α → List α) (queue visited : List α) : Prop :=
  ∀ x ∈ visited, ∀ y ∈ next x, y ∈ visited ∨ y ∈ queue

theorem Frontier.reach (f : Frontier next queue visited) (hx : x ∈ visited) (h : Reach next x y) :
    y ∈ visited ∨ ∃ z ∈ queue, Reach next z y := by
  induction h using ReflTransGen.head_induction_on
  case refl => exact .inl hx
  case head x z hz h hi =>
    rcases f x hx z hz with hv | hq
    · exact hi hv
    · exact .inr ⟨z, hq, h⟩

theorem Frontier.skip (f : Frontier next (x :: queue) visited) (hx : x ∈ visited) :
    Frontier next queue visited := by
  intro z hz y hy
  rcases f z hz y hy with h | h
  · exact .inl h
  · rcases List.mem_cons.mp h with rfl | h
    · exact .inl hx
    · exact .inr h

theorem Frontier.visit (f : Frontier next (x :: queue) visited) :
    Frontier next ((next x).reverse ++ queue) (visited ++ [x]) := by
  intro z hz y hy
  simp only [List.mem_append, List.mem_reverse, List.mem_singleton] at hz ⊢
  rcases hz with hz | rfl
  · rcases f z hz y hy with h | h
    · exact .inl <| .inl h
    · rcases List.mem_cons.mp h with rfl | h
      · exact .inl <| .inr rfl
      · exact .inr <| .inr h
  · exact .inr <| .inl hy

theorem Loop.nodup (h : Loop next queue visited result) (hv : visited.Nodup) : result.Nodup := by
  induction h
  case done => exact hv
  case skip hi => exact hi hv
  case visit hx _ hi => exact hi (List.concat_eq_append ▸ hv.concat hx)

-- The loop finds what can be reached from the queue.
theorem Loop.mem_iff (h : Loop next queue visited result) (f : Frontier next queue visited) :
    y ∈ result ↔ y ∈ visited ∨ ∃ x ∈ queue, Reach next x y := by
  induction h
  case done => simp
  case skip x _ _ _ hx _ hi =>
    rw [hi (f.skip hx)]
    constructor
    · rintro (h | ⟨z, hz, h⟩)
      · exact .inl h
      · exact .inr ⟨z, List.mem_cons_of_mem _ hz, h⟩
    · rintro (h | ⟨z, hz, h⟩)
      · exact .inl h
      · rcases List.mem_cons.mp hz with rfl | hz
        · exact (f.skip hx).reach hx h
        · exact .inr ⟨z, hz, h⟩
  case visit x _ _ _ hx _ hi =>
    rw [hi f.visit]
    simp only [List.mem_append, List.mem_reverse, List.mem_singleton]
    constructor
    · rintro ((h | rfl) | ⟨z, hz | hz, h⟩)
      · exact .inl h
      · exact .inr ⟨y, List.mem_cons_self, .refl⟩
      · exact .inr ⟨x, List.mem_cons_self, .head hz h⟩
      · exact .inr ⟨z, List.mem_cons_of_mem _ hz, h⟩
    · rintro (h | ⟨z, hz, h⟩)
      · exact .inl <| .inl h
      · rcases List.mem_cons.mp hz with rfl | hz
        · rcases h.cases_head with rfl | ⟨w, hw, h⟩
          · exact .inl <| .inr rfl
          · exact .inr ⟨w, .inl hw, h⟩
        · exact .inr ⟨z, .inr hz, h⟩

variable [DecidableEq α]

theorem sum_unvisited_antitone (x : α) :
    ((nodes.filter (· ∉ visited ++ [x])).map fun z => (next z).length).sum ≤
      ((nodes.filter (· ∉ visited)).map fun z => (next z).length).sum := by
  have hs : (nodes.filter (· ∉ visited ++ [x])).Sublist (nodes.filter (· ∉ visited)) :=
    List.monotone_filter_right _ (by intro z; simp; tauto)
  exact (hs.map fun z => (next z).length).sum_le_sum (by simp)

-- Visiting a node pays for the neighbors it pushes.
theorem sum_visit (hn : ∀ z, next z ≠ [] → z ∈ nodes) (hx : x ∉ visited) :
    ((nodes.filter (· ∉ visited ++ [x])).map fun z => (next z).length).sum + (next x).length ≤
      ((nodes.filter (· ∉ visited)).map fun z => (next z).length).sum := by
  by_cases he : next x = []
  · rw [he, List.length_nil, Nat.add_zero]
    exact sum_unvisited_antitone x
  · have hm := hn x he
    clear hn
    induction nodes
    case nil => cases hm
    case cons z nodes hi =>
      by_cases hz : z = x
      · have : ((nodes.filter (· ∉ visited ++ [x])).map fun z => (next z).length).sum ≤
            ((nodes.filter (· ∉ visited)).map fun z => (next z).length).sum :=
          sum_unvisited_antitone x
        simp_all
        omega
      · have := hi <| (List.mem_cons.mp hm).resolve_left (Ne.symm hz)
        by_cases hv : z ∈ visited <;> simp_all
        omega

theorem cost_visit (hn : ∀ z, next z ≠ [] → z ∈ nodes) (hx : x ∉ visited) :
    cost next nodes ((next x).reverse ++ queue) (visited ++ [x]) <
      cost next nodes (x :: queue) visited := by
  have := sum_visit hn hx
  simp only [cost, List.length_append, List.length_reverse, List.length_cons]
  omega

theorem loop_explore (hn : ∀ z, next z ≠ [] → z ∈ nodes) {fuel : Nat}
    (hf : cost next nodes queue visited ≤ fuel) :
    Loop next queue visited (explore next fuel queue visited) := by
  induction fuel generalizing queue visited
  case zero =>
    have hq : queue = [] := by
      simp only [cost] at hf
      exact List.length_eq_zero_iff.mp (by omega)
    rw [hq]
    exact .done
  case succ fuel hi =>
    cases queue
    case nil => exact .done
    case cons cur queue =>
      rw [explore]
      by_cases hc : cur ∈ visited
      case pos =>
        rw [if_pos hc]
        refine .skip hc (hi ?_)
        simp only [cost, List.length_cons] at hf ⊢
        omega
      case neg =>
        rw [if_neg hc]
        exact .visit hc (hi <| Nat.le_of_lt_succ <| (cost_visit hn hc).trans_le hf)

end Worklist
