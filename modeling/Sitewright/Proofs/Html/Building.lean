import Mathlib.Data.List.Dedup
import Mathlib.Data.List.Perm.Subperm
import Mathlib.Logic.Function.Iterate
import Mathlib.Logic.Relation
import Sitewright.Proofs.Html.Expansion

/-!
# Building markup step by step

An expansion as the work of a builder, which has one stack of open names, one list of recorded style
sheets and one element under construction, and changes them task by task. A name is put on the stack
where a component is entered and taken off by a task of its own, which is also done while a fault
skips all others. Building ends for every page, whatever the shared components refer to: each node
to append is done with after finitely many steps, with the stack as before, and what the builder has
then is what the expansion says.
-/

namespace Sitewright.Html

open Relation (ReflTransGen)

/-- What is still to be done. -/
inductive Task
  /-- Append the markup of a node of the component `owner`. -/
  | append (owner : Component) (node : Ui.Node)
  /-- Close the element under construction, which comes after `before` in its parent. -/
  | close (tag : String) (attrs : List (String × Markup.Attr)) (before : List Markup.Child)
  /-- Take the last name off the stack. -/
  | leave

def Task.isLeave : Task → Bool
  | .leave => true
  | _ => false

def Scope.names (scope : Scope) : List String := scope.options.externals.values.map (·.name)

/-- Record style sheets that are not recorded yet. -/
def recordAll (recorded sheets : List String) : List String :=
  sheets.foldl (fun recorded path => if path ∈ recorded then recorded else recorded ++ [path])
    recorded

structure Builder where
  /-- The names of the components being inlined, outermost first. -/
  stack : List String
  sheets : List String := []
  /-- The children of the element under construction. -/
  children : List Markup.Child := []
  /-- The next task comes first. -/
  tasks : List Task := []
  fault : Option Fault := none

namespace Builder

def push (b : Builder) (task : Task) : Builder := { b with tasks := task :: b.tasks }

/-- Enter a shared component, unless it is being inlined already. -/
def enter (scope : Scope) (b : Builder) (c : Component) : Builder :=
  if c.name ∈ b.stack then { b with fault := some (Scope.selfInclusion b.stack c.name) }
  else
    { b with
      stack := b.stack ++ [c.name]
      sheets := recordAll b.sheets (scope.ownSheets c)
      tasks := .append c (scope.tree c) :: .leave :: b.tasks }

def appendNode (scope : Scope) (b : Builder) (owner : Component) : Ui.Node → Builder
  | .text s => { b with children := b.children ++ [.text s] }
  | .dynamic r => { b with children := b.children ++ (staticValue? owner r).toList.map .text }
  | .element e nodes =>
    match scope.external? e with
    | some c => b.enter scope c
    | none =>
      { b with
        children := []
        tasks := nodes.map (.append owner) ++
          .close e.kind (scope.attributes owner e) b.children :: b.tasks }

/-- Do a task. After a fault only names are taken off the stack. -/
def perform (scope : Scope) (b : Builder) : Task → Builder
  | .leave => { b with stack := b.stack.dropLast }
  | .append owner node => if b.fault.isSome then b else b.appendNode scope owner node
  | .close tag attrs before =>
    if b.fault.isSome then b
    else { b with children := before ++ [.element tag attrs b.children] }

def step (scope : Scope) (b : Builder) : Builder :=
  match b.tasks with
  | [] => b
  | task :: rest => { b with tasks := rest }.perform scope task

/-- How many components are being inlined. -/
def depth (b : Builder) : Nat := b.tasks.countP Task.isLeave

def outcome (b : Builder) : Outcome (List Markup.Child × List String) :=
  match b.fault with
  | none => .ok (b.children, b.sheets)
  | some fault => .error fault

variable {scope : Scope} {page owner : Component} {node : Ui.Node} {before b b' : Builder}
  {task : Task} {rest : List Task}

/-! ### What a call comes to -/

/-- The builder after a call: it goes on where it was before the call, its stack as before. -/
def After (before : Builder) : Outcome (List Markup.Child × List String) → Builder → Prop
  | .ok (children, sheets), b => b =
      { before with
        children := before.children ++ children
        sheets := recordAll before.sheets sheets }
  | .error fault, b =>
      b.tasks = before.tasks ∧ b.stack = before.stack ∧ b.fault = some fault

/-- Steps while more is to be done than `rest`. -/
def Leads (scope : Scope) (rest : List Task) : Builder → Builder → Prop :=
  ReflTransGen fun b b' => rest.length < b.tasks.length ∧ b.step scope = b'

/-- The builder comes to the end of a call that was made by `before`. -/
def Returns (scope : Scope) (before b : Builder)
    (result : Outcome (List Markup.Child × List String)) : Prop :=
  ∃ b', Leads scope before.tasks b b' ∧ before.After result b'

theorem Leads.mono {rest' : List Task} (hle : rest.length ≤ rest'.length)
    (h : Leads scope rest' b b') : Leads scope rest b b' :=
  ReflTransGen.mono (fun _ _ hstep => ⟨Nat.lt_of_le_of_lt hle hstep.1, hstep.2⟩) _ _ h

theorem leads_perform (scope : Scope) (htasks : b.tasks = task :: rest) :
    Leads scope rest b ({ b with tasks := rest }.perform scope task) := by
  refine .single ⟨?_, ?_⟩
  · rw [htasks]
    exact Nat.lt_succ_self _
  · rw [step, htasks]

theorem leads_append (scope : Scope) (hfault : before.fault = none) (owner : Component)
    (node : Ui.Node) : Leads scope before.tasks (before.push (.append owner node))
      (before.appendNode scope owner node) := by
  have hperform : before.perform scope (.append owner node) =
      before.appendNode scope owner node := by
    simp [perform, hfault]
  exact hperform ▸ leads_perform scope rfl

/-- After a fault, nothing is appended. -/
theorem leads_skip (scope : Scope) (hfault : before.fault.isSome) (owner : Component)
    (node : Ui.Node) : Leads scope before.tasks (before.push (.append owner node)) before := by
  have hstep : Leads scope before.tasks (before.push (.append owner node))
      (before.perform scope (.append owner node)) := leads_perform scope rfl
  rwa [perform, if_pos hfault] at hstep

theorem After.tasks_eq {result : Outcome (List Markup.Child × List String)}
    (h : before.After result b) : b.tasks = before.tasks := by
  cases result with
  | error fault => exact h.1
  | ok result => rw [show b = _ from h]

theorem After.stack_eq {result : Outcome (List Markup.Child × List String)}
    (h : before.After result b) : b.stack = before.stack := by
  cases result with
  | error fault => exact h.2.1
  | ok result => rw [show b = _ from h]

def pushNodes (before : Builder) (owner : Component) (nodes : List Ui.Node) : Builder :=
  { before with tasks := nodes.map (.append owner) ++ before.tasks }

theorem leads_pushNodes (scope : Scope) (hfault : before.fault.isSome) (owner : Component)
    (nodes : List Ui.Node) : Leads scope before.tasks (before.pushNodes owner nodes) before := by
  induction nodes with
  | nil => exact .refl
  | cons node nodes ih =>
    have hskip : Leads scope (before.pushNodes owner nodes).tasks
        (before.pushNodes owner (node :: nodes)) (before.pushNodes owner nodes) :=
      leads_skip scope (show (before.pushNodes owner nodes).fault.isSome from hfault) owner node
    exact (hskip.mono (by simp [pushNodes])).trans ih

section Calls

variable {result first later : Outcome (List Markup.Child × List String)} {tag : String}
  {attrs : List (String × Markup.Attr)} {name : String} {own : List String} {nodes : List Ui.Node}

theorem Leads.returns (h : Leads scope before.tasks b b')
    (hreturns : Returns scope before b' result) : Returns scope before b result := by
  obtain ⟨last, hleads, hafter⟩ := hreturns
  exact ⟨last, ReflTransGen.trans h hleads, hafter⟩

/-- The children of an element are appended to an element of their own, which is closed after
them. -/
theorem Returns.close (hfault : before.fault = none) (h : Returns scope
      ({ before with children := [] }.push (.close tag attrs before.children)) b result) :
    Returns scope before b (result.map fun r => ([.element tag attrs r.1], r.2)) := by
  obtain ⟨b', hleads, hafter⟩ := h
  refine ⟨_, (hleads.mono (Nat.le_succ _)).trans (leads_perform scope hafter.tasks_eq), ?_⟩
  cases result with
  | error fault => simp [After, perform, Except.map, hafter.2.2, hafter.2.1, push]
  | ok r =>
    obtain rfl := hafter
    simp [After, perform, Except.map, hfault, push]

/-- The name of a component is taken off the stack after its tree, also when there was a fault. -/
theorem Returns.leave (h : Returns scope ({ before with
      stack := before.stack ++ [name]
      sheets := recordAll before.sheets own }.push .leave) b result) :
    Returns scope before b (result.map fun r => (r.1, own ++ r.2)) := by
  obtain ⟨b', hleads, hafter⟩ := h
  refine ⟨_, (hleads.mono (Nat.le_succ _)).trans (leads_perform scope hafter.tasks_eq), ?_⟩
  cases result with
  | error fault => simp [After, perform, Except.map, hafter.2.2, hafter.2.1, push]
  | ok r =>
    obtain rfl := hafter
    simp [After, perform, Except.map, push, recordAll]

/-- Nodes are appended one after another. A fault in the first skips the others. -/
theorem Returns.cons (hfirst : Returns scope (before.pushNodes owner nodes) b first)
    (hlater : ∀ children sheets, let next : Builder :=
        { before with
          children := before.children ++ children
          sheets := recordAll before.sheets sheets }
      Returns scope next (next.pushNodes owner nodes) later) :
    Returns scope before b
      (first >>= fun r => later >>= fun r' => .ok (r.1 ++ r'.1, r.2 ++ r'.2)) := by
  obtain ⟨b', hleads, hafter⟩ := hfirst
  replace hleads : Leads scope before.tasks b b' := hleads.mono (by simp [pushNodes])
  cases first with
  | error fault =>
    obtain ⟨htasks, hstack, hfault⟩ := hafter
    let stopped : Builder := { b' with tasks := before.tasks }
    have hskip : Leads scope before.tasks (stopped.pushNodes owner nodes) stopped :=
      leads_pushNodes scope (show stopped.fault.isSome by simp [stopped, hfault]) owner nodes
    have hb' : stopped.pushNodes owner nodes = b' := by
      cases b'
      simp_all [stopped, pushNodes]
    exact ⟨stopped, hleads.trans (hb' ▸ hskip), rfl, hstack, hfault⟩
  | ok r =>
    obtain rfl := hafter
    obtain ⟨last, hleads', hafter⟩ := hlater r.1 r.2
    refine ⟨last, hleads.trans hleads', ?_⟩
    cases later with
    | error fault => exact hafter
    | ok r' =>
      obtain rfl := hafter
      simp [After, bind, Except.bind, recordAll]

end Calls

/-- What the tasks of an expansion come to is what the expansion says. -/
theorem returns_expand (scope : Scope) :
    (∀ stack owner node (before : Builder), before.stack = stack → before.fault = none →
      Returns scope before (before.push (.append owner node)) (scope.expand stack owner node)) ∧
    (∀ stack owner nodes (before : Builder), before.stack = stack → before.fault = none →
      Returns scope before (before.pushNodes owner nodes) (scope.expandAll stack owner nodes)) ∧
    ∀ stack c hc (before : Builder), before.stack = stack → before.fault = none →
      Returns scope before (before.enter scope c) (scope.inline stack c hc) := by
  refine Scope.expand_induction
    (P := fun stack owner node result => ∀ before : Builder, before.stack = stack →
      before.fault = none → Returns scope before (before.push (.append owner node)) result)
    (Q := fun stack owner nodes result => ∀ before : Builder, before.stack = stack →
      before.fault = none → Returns scope before (before.pushNodes owner nodes) result)
    (R := fun stack c result => ∀ before : Builder, before.stack = stack →
      before.fault = none → Returns scope before (before.enter scope c) result) scope
    ?text ?dynamic ?external ?element ?nil ?cons ?again ?inlined
  case text =>
    intro stack owner s before _ hfault
    refine ⟨_, leads_append scope hfault owner (.text s), ?_⟩
    simp [After, appendNode, recordAll]
  case dynamic =>
    intro stack owner r before _ hfault
    refine ⟨_, leads_append scope hfault owner (.dynamic r), ?_⟩
    simp [After, appendNode, recordAll]
  case external =>
    intro stack owner e nodes c result hc ih before hstack hfault
    have hstep := leads_append scope hfault owner (.element e nodes)
    rw [appendNode, hc] at hstep
    exact hstep.returns (ih before hstack hfault)
  case element =>
    intro stack owner e nodes result hnone ih before hstack hfault
    let close : Task := .close e.kind (scope.attributes owner e) before.children
    let inner : Builder := { before with children := [] }
    have hstep := leads_append scope hfault owner (.element e nodes)
    rw [appendNode, hnone] at hstep
    exact hstep.returns (.close hfault (ih (inner.push close) hstack hfault))
  case nil =>
    intro stack owner before _ _
    refine ⟨before, .refl, ?_⟩
    simp [After, recordAll]
  case cons =>
    intro stack owner node nodes first later ih ihnodes before hstack hfault
    exact .cons (ih (before.pushNodes owner nodes) hstack hfault)
      fun children sheets => ihnodes _ hstack hfault
  case again =>
    intro stack c hopen before hstack hfault
    refine ⟨_, .refl, ?_⟩
    rw [enter, if_pos (hstack ▸ hopen), hstack]
    exact ⟨rfl, hstack.symm, rfl⟩
  case inlined =>
    intro stack c result hfree ih before hstack hfault
    let inner : Builder :=
      { before with
        stack := before.stack ++ [c.name]
        sheets := recordAll before.sheets (scope.ownSheets c) }
    have henter : before.enter scope c = (inner.push .leave).push (.append c (scope.tree c)) := by
      rw [enter, if_neg (hstack ▸ hfree)]
      rfl
    rw [henter]
    exact .leave (ih (inner.push .leave) (by simp [inner, push, hstack]) hfault)

theorem Leads.exists_iterate (h : Leads scope rest b b') : ∃ n, (step scope)^[n] b = b' ∧
    ∀ k < n, rest.length < ((step scope)^[k] b).tasks.length := by
  induction h using ReflTransGen.head_induction_on with
  | refl => exact ⟨0, rfl, by simp⟩
  | @head b c hstep _ ih =>
    obtain ⟨hlt, rfl⟩ := hstep
    obtain ⟨n, hn, hlonger⟩ := ih
    refine ⟨n + 1, hn, fun k hk => ?_⟩
    cases k with
    | zero => exact hlt
    | succ k => exact hlonger k (by omega)

/-- Every call of a node to append returns, and the stack is then as it was. -/
theorem append_returns (scope : Scope) (htasks : b.tasks = .append owner node :: rest) :
    ∃ b', Leads scope rest b b' ∧ b'.tasks = rest ∧ b'.stack = b.stack := by
  let before : Builder := { b with tasks := rest }
  have hb : b = before.push (.append owner node) := by
    cases b
    simp_all [before, push]
  cases hfault : b.fault with
  | none =>
    obtain ⟨b', hleads, hafter⟩ := (returns_expand scope).1 b.stack owner node before rfl hfault
    exact ⟨b', hb ▸ hleads, hafter.tasks_eq, hafter.stack_eq⟩
  | some fault =>
    have hskip := leads_skip scope (show before.fault.isSome by simp [before, hfault]) owner node
    exact ⟨before, hb ▸ hskip, rfl, rfl⟩

/-! ### What every step keeps -/

/-- The names on the stack are distinct: that of the page, and one for each component that is being
inlined. -/
structure Nested (scope : Scope) (page : Component) (b : Builder) : Prop where
  nodup : b.stack.Nodup
  stack_eq : ∃ inlined, b.stack = page.name :: inlined ∧ inlined.length = b.depth ∧
    ∀ name ∈ inlined, name ∈ scope.names

theorem Nested.congr (h : Nested scope page b) (hstack : b'.stack = b.stack)
    (hdepth : b'.depth = b.depth) : Nested scope page b' := by
  obtain ⟨hnodup, hstack_eq⟩ := h
  exact ⟨hstack ▸ hnodup, by rwa [hstack, hdepth]⟩

theorem Nested.leave (h : Nested scope page (before.push .leave)) :
    Nested scope page (before.perform scope .leave) := by
  obtain ⟨hnodup, inlined, hstack, hlength, hnames⟩ := h
  have hdepth : (before.push .leave).depth = before.depth + 1 := by
    simp [depth, push, List.countP_cons, Task.isLeave]
  have hne : inlined ≠ [] := by
    rintro rfl
    simp [hdepth] at hlength
  refine ⟨hnodup.sublist (List.dropLast_sublist _), inlined.dropLast, ?_, ?_, ?_⟩
  · show before.stack.dropLast = _
    rw [show before.stack = page.name :: inlined from hstack, List.dropLast_cons_of_ne_nil hne]
  · rw [List.length_dropLast, hlength, hdepth]
    rfl
  · exact fun name hname => hnames name (List.dropLast_subset _ hname)

theorem Nested.enter (h : Nested scope page before) {c : Component}
    (hc : c ∈ scope.options.externals.values) : Nested scope page (before.enter scope c) := by
  rw [Builder.enter]
  split
  · exact h.congr rfl rfl
  · next hfree =>
    obtain ⟨hnodup, inlined, hstack, hlength, hnames⟩ := h
    refine ⟨?_, inlined ++ [c.name], by simp [hstack], ?_, ?_⟩
    · exact List.nodup_append.2 ⟨hnodup, List.nodup_singleton _, by
        rintro name hname other hother rfl
        exact hfree (List.mem_singleton.1 hother ▸ hname)⟩
    · simp [depth, List.countP_cons, Task.isLeave, hlength]
    · intro name hname
      rcases List.mem_append.1 hname with hname | hname
      · exact hnames name hname
      · rw [List.mem_singleton.1 hname]
        exact List.mem_map_of_mem hc

theorem Nested.step (h : Nested scope page b) : Nested scope page (b.step scope) := by
  rw [Builder.step]
  split
  · exact h
  · next task rest htasks =>
    let before : Builder := { b with tasks := rest }
    have hb : b = before.push task := by
      cases b
      simp_all [before, push]
    have hbefore (hleave : task.isLeave = false) : Nested scope page before :=
      h.congr rfl (by simp [before, depth, htasks, hleave])
    cases task with
    | leave => exact Nested.leave (hb ▸ h)
    | close tag attrs children =>
      rw [perform]
      split
      · exact hbefore rfl
      · exact (hbefore rfl).congr rfl rfl
    | append owner node =>
      rw [perform]
      split
      · exact hbefore rfl
      · cases node with
        | text s => exact (hbefore rfl).congr rfl rfl
        | dynamic r => exact (hbefore rfl).congr rfl rfl
        | element e nodes =>
          rw [appendNode]
          split
          · next c hc => exact (hbefore rfl).enter (Scope.mem_values_of_external? hc)
          · refine (hbefore rfl).congr rfl ?_
            simp [depth, before, Task.isLeave, List.countP_map, Function.comp_def]

def moment (scope : Scope) (page : Component) (n : Nat) : Builder :=
  (step scope)^[n] { stack := [page.name], tasks := [.append page page.node] }

theorem moment_add (scope : Scope) (page : Component) (m n : Nat) :
    moment scope page (m + n) = (step scope)^[m] (moment scope page n) :=
  Function.iterate_add_apply _ m n _

theorem nested_moment (scope : Scope) (page : Component) (n : Nat) :
    Nested scope page (moment scope page n) := by
  induction n with
  | zero => exact ⟨List.nodup_singleton _, [], rfl, rfl, by simp⟩
  | succ n ih =>
    rw [moment, Function.iterate_succ_apply']
    exact ih.step

theorem Nested.depth_le (h : Nested scope page b) : b.depth ≤ scope.names.dedup.length := by
  obtain ⟨hnodup, inlined, hstack, hlength, hnames⟩ := h
  rw [hstack, List.nodup_cons] at hnodup
  have hsub : inlined ⊆ scope.names.dedup := fun name hname =>
    List.mem_dedup.2 (hnames name hname)
  exact hlength ▸ (List.Nodup.subperm hnodup.2 hsub).length_le

/-- Building a page ends with what the expansion says, whatever components refer to each other. At
every moment the names on the stack are distinct, so that no more components are inlined in each
other than there are names, and every call that is made then returns, with the stack as before. -/
theorem building_ends (scope : Scope) (page : Component) :
    (∃ n, (moment scope page n).tasks = [] ∧ (moment scope page n).stack = [page.name] ∧
      (moment scope page n).outcome =
        (scope.expand [page.name] page page.node).map fun r => (r.1, recordAll [] r.2)) ∧
    ∀ n, (moment scope page n).stack.Nodup ∧
      (moment scope page n).stack.length = (moment scope page n).depth + 1 ∧
      (moment scope page n).depth ≤ scope.names.dedup.length ∧
      ∀ owner node rest, (moment scope page n).tasks = .append owner node :: rest → ∃ m > n,
        (moment scope page m).tasks = rest ∧
        (moment scope page m).stack = (moment scope page n).stack ∧
        ∀ k, n ≤ k → k < m → rest.length < (moment scope page k).tasks.length := by
  constructor
  · let before : Builder := { stack := [page.name] }
    obtain ⟨b, hleads, hafter⟩ :=
      (returns_expand scope).1 [page.name] page page.node before rfl rfl
    obtain ⟨n, hn, -⟩ := hleads.exists_iterate
    have hb : moment scope page n = b := hn
    refine ⟨n, hb ▸ hafter.tasks_eq, hb ▸ hafter.stack_eq, ?_⟩
    rw [hb]
    cases hresult : scope.expand [page.name] page page.node with
    | error fault =>
      rw [hresult] at hafter
      simp [outcome, hafter.2.2, Except.map]
    | ok result =>
      rw [hresult] at hafter
      obtain rfl := hafter
      simp [outcome, before, Except.map]
  · intro n
    have hnested := nested_moment scope page n
    obtain ⟨inlined, hstack, hlength, -⟩ := hnested.stack_eq
    refine ⟨hnested.nodup, by simp [hstack, hlength], hnested.depth_le, ?_⟩
    intro owner node rest htasks
    obtain ⟨b, hleads, hb, hstack'⟩ := append_returns scope htasks
    obtain ⟨count, hcount, hlonger⟩ := hleads.exists_iterate
    have hmoment : moment scope page (count + n) = b := (moment_add scope page count n).trans hcount
    refine ⟨count + n, ?_, hmoment ▸ hb, hmoment ▸ hstack', fun k hk hlt => ?_⟩
    · rcases count.eq_zero_or_pos with rfl | hpos
      · have hlen := congrArg List.length ((congrArg tasks hcount).trans hb)
        simp [htasks] at hlen
      · omega
    · have hk' := hlonger (k - n) (by omega)
      rwa [← moment_add, Nat.sub_add_cancel hk] at hk'

def ring : Component where
  name := "Loop"
  node := .element { kind := "Ring" } []

def ringScope : Scope where
  mapping := {}
  options := { externals := Table.empty.insert "Ring" ring }

def ringPage : Component where
  name := "Page"
  node := .element { kind := "Ring" } []

theorem expand_ringPage : ringScope.expand [ringPage.name] ringPage ringPage.node =
    .error (Scope.selfInclusion ["Page", "Loop"] "Loop") := by
  have hring : ringScope.external? { kind := "Ring" } = some ring := rfl
  have hvalues := Scope.mem_values_of_external? hring
  have htree : ringScope.tree ring = .element { kind := "Ring" } [] := rfl
  rw [ringPage, Scope.expand_external hring, Scope.inline_of_notMem hvalues (by decide), htree,
    Scope.expand_external hring, Scope.inline_of_mem hvalues (by decide)]
  rfl

theorem building_ends_ring :
    (∃ n, (moment ringScope ringPage n).tasks = [] ∧ (moment ringScope ringPage n).outcome =
      .error (Scope.selfInclusion ["Page", "Loop"] "Loop")) ∧
    (moment ringScope ringPage 0).tasks = [.append ringPage ringPage.node] ∧
    ∃ m > 0, (moment ringScope ringPage m).tasks = [] ∧
      (moment ringScope ringPage m).stack = ["Page"] := by
  obtain ⟨⟨n, htasks, -, houtcome⟩, hall⟩ := building_ends ringScope ringPage
  have hstart : (moment ringScope ringPage 0).tasks = [.append ringPage ringPage.node] := rfl
  obtain ⟨m, hm, hreturn, hstack, -⟩ := (hall 0).2.2.2 ringPage ringPage.node [] hstart
  rw [expand_ringPage] at houtcome
  exact ⟨⟨n, htasks, houtcome⟩, hstart, m, hm, hreturn, hstack⟩

end Builder

end Sitewright.Html
