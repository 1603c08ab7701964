import AutomataStore.Proofs.EventForests

/-
  Reading events recursively.

  Events are read as nodes by recursion: an element holds the
  nodes up to its own end tag, and the nodes after it follow.
  A file without a fault is a document exactly if its events
  are read as one element outside of which there is only
  blank text, and every element is closed.  The document is
  then that element without gaps.

  Key definitions include:
    * `Markup.read`, `Markup.forestOf`
    * `Markup.openAfter`
    * `Markup.SingleRooted`
    * `Assembly.Adds`

  Main declarations:
    * `Markup.balanced_events`
    * `Assembly.adds_forestOf`
    * `Assembly.foldlM_step_root_iff`
    * `Document.parse_eq_ok_iff_singleRooted`
-/

------------------------------------------------------------
-- Recursive Reading
------------------------------------------------------------

namespace AutomataStore

open Markup (Attribute Event Fault Malformed Feed Token)

namespace Markup

/-
  What events are read as: the nodes up to the first end tag
  that ends none of them, and the events from that tag on.
-/
structure Reading (events : List Event) where
  nodes : List Node
  rest : List Event
  length_le : rest.length ≤ events.length

/-
  Read events.  An element takes the nodes up to its end tag,
  which is skipped; what says nothing adds nothing.
-/
def read : (events : List Event) → Reading events
  | [] => ⟨[], [], Nat.le_refl _⟩
  | .start tag attributes :: events =>
      match read events with
      | ⟨children, rest, hInner⟩ =>
          have hTail : rest.tail.length ≤ events.length := by
            rw [List.length_tail]
            omega
          let after := read rest.tail
          ⟨.element tag attributes children :: after.nodes,
            after.rest,
            Nat.le_succ_of_le
              (Nat.le_trans after.length_le hTail)⟩
  | .empty tag attributes :: events =>
      let after := read events
      ⟨.element tag attributes [] :: after.nodes, after.rest,
        Nat.le_succ_of_le after.length_le⟩
  | .finish :: events =>
      ⟨[], .finish :: events, Nat.le_refl _⟩
  | .text content :: events =>
      let after := read events
      ⟨.text content :: after.nodes, after.rest,
        Nat.le_succ_of_le after.length_le⟩
  | .comment content :: events =>
      let after := read events
      ⟨.comment content :: after.nodes, after.rest,
        Nat.le_succ_of_le after.length_le⟩
  | .skipped :: events =>
      let after := read events
      ⟨after.nodes, after.rest,
        Nat.le_succ_of_le after.length_le⟩
termination_by events => events.length
decreasing_by
  all_goals
    simp only [List.length_cons]
    omega

/- The nodes that events spell up to an end tag of no node. -/
def forestOf (events : List Event) : List Node :=
  (read events).nodes

/- The events from the first end tag of no node on. -/
def restOf (events : List Event) : List Event :=
  (read events).rest

section

variable {tag content : String}
variable {attributes : List Attribute}
variable {events : List Event}

@[simp]
theorem read_nil :
    forestOf [] = [] ∧ restOf [] = [] := by
  simp only [forestOf, restOf, read, and_self]

@[simp]
theorem read_start :
    forestOf (.start tag attributes :: events) =
        .element tag attributes (forestOf events) ::
          forestOf (restOf events).tail ∧
      restOf (.start tag attributes :: events) =
        restOf (restOf events).tail := by
  simp only [forestOf, restOf, read, and_self]

@[simp]
theorem read_empty :
    forestOf (.empty tag attributes :: events) =
        .element tag attributes [] :: forestOf events ∧
      restOf (.empty tag attributes :: events) =
        restOf events := by
  simp only [forestOf, restOf, read, and_self]

@[simp]
theorem read_finish :
    forestOf (.finish :: events) = [] ∧
      restOf (.finish :: events) = .finish :: events := by
  simp only [forestOf, restOf, read, and_self]

@[simp]
theorem read_text :
    forestOf (.text content :: events) =
        .text content :: forestOf events ∧
      restOf (.text content :: events) = restOf events := by
  simp only [forestOf, restOf, read, and_self]

@[simp]
theorem read_comment :
    forestOf (.comment content :: events) =
        .comment content :: forestOf events ∧
      restOf (.comment content :: events) =
        restOf events := by
  simp only [forestOf, restOf, read, and_self]

@[simp]
theorem read_skipped :
    forestOf (.skipped :: events) = forestOf events ∧
      restOf (.skipped :: events) = restOf events := by
  simp only [forestOf, restOf, read, and_self]

end

/-
  A property of lists of events holds of all when each kind
  of first event keeps it, the start of an element from what
  is inside it and from what comes after its end tag.
-/
@[elab_as_elim]
theorem readingInduction
    {motive : List Event → Prop}
    (nil : motive [])
    (start :
      ∀ tag attributes events,
        motive events →
          motive (restOf events).tail →
            motive (.start tag attributes :: events))
    (empty :
      ∀ tag attributes events,
        motive events →
          motive (.empty tag attributes :: events))
    (finish : ∀ events, motive (.finish :: events))
    (text :
      ∀ content events,
        motive events → motive (.text content :: events))
    (comment :
      ∀ content events,
        motive events → motive (.comment content :: events))
    (skipped :
      ∀ events, motive events → motive (.skipped :: events))
    (events : List Event) :
    motive events := by
  induction events using read.induct with
  | case1 => exact nil
  | case2 tag attributes events _ _ _ hRead _ ih ihTail =>
      apply start tag attributes events ih
      rw [restOf, hRead]
      exact ihTail
  | case3 tag attributes events ih => exact empty _ _ _ ih
  | case4 events => exact finish _
  | case5 content events ih => exact text _ _ ih
  | case6 content events ih => exact comment _ _ ih
  | case7 events ih => exact skipped _ ih

/- Reading stops at the end of the events or at an end tag. -/
theorem restOf_eq
    (events : List Event) :
    restOf events = [] ∨
      ∃ after, restOf events = .finish :: after := by
  induction events using readingInduction with
  | nil =>
      left
      simp only [read_nil]
  | finish events =>
      right
      exact ⟨events, by simp only [read_finish]⟩
  | start tag attributes events _ ih =>
      simp only [read_start]
      exact ih
  | empty tag attributes events ih =>
      simp only [read_empty]
      exact ih
  | text content events ih =>
      simp only [read_text]
      exact ih
  | comment content events ih =>
      simp only [read_comment]
      exact ih
  | skipped events ih =>
      simp only [read_skipped]
      exact ih

------------------------------------------------------------
-- Open Elements
------------------------------------------------------------

/- How many elements are open after an event. -/
def Event.depthAfter (n : Nat) : Event → Nat
  | .start _ _ => n + 1
  | .finish => n - 1
  | _ => n

/- How many elements are open after events. -/
def openAfter (n : Nat) (events : List Event) : Nat :=
  events.foldl Event.depthAfter n

@[simp]
theorem openAfter_cons
    (n : Nat)
    (e : Event)
    (events : List Event) :
    openAfter n (e :: events) =
      openAfter (e.depthAfter n) events :=
  rfl

/- Every end tag comes while some element is open. -/
def Balanced (n : Nat) : List Event → Prop
  | [] => True
  | e :: events =>
      (e = .finish → 0 < n) ∧
        Balanced (e.depthAfter n) events

/- An event opens and closes the names that it should. -/
theorem depthAfter_of_readToken
    {opened opened' : List Bytes}
    {t : Token}
    {e : Event}
    (hRead : readToken opened t = .ok (e, opened')) :
    (e = .finish → 0 < opened.length) ∧
      opened'.length = e.depthAfter opened.length := by
  cases t with
  | text bs =>
      simp only [readToken] at hRead
      cases h : readText bs <;> rw [h] at hRead <;> cases hRead
      exact ⟨nofun, rfl⟩
  | opening bs =>
      simp only [readToken] at hRead
      cases h : attributesOf bs <;> rw [h] at hRead <;>
        cases hRead
      exact ⟨nofun, rfl⟩
  | empty bs =>
      simp only [readToken] at hRead
      cases h : attributesOf bs <;> rw [h] at hRead <;>
        cases hRead
      exact ⟨nofun, rfl⟩
  | closing bs =>
      simp only [readToken] at hRead
      cases opened with
      | nil => cases hRead
      | cons name opened =>
          simp only [closeName] at hRead
          split at hRead
          · cases hRead
            exact ⟨fun _ => Nat.succ_pos _, rfl⟩
          · cases hRead
  | comment bs =>
      cases hRead
      exact ⟨nofun, rfl⟩
  | cdata bs =>
      cases hRead
      exact ⟨nofun, rfl⟩
  | instruction bs =>
      cases hRead
      exact ⟨nofun, rfl⟩
  | doctype bs =>
      cases hRead
      exact ⟨nofun, rfl⟩

/- Events are balanced over the names that are open. -/
theorem balanced_eventsFrom
    (opened : List Bytes)
    (f : Feed Token) :
    Balanced opened.length (eventsFrom opened f).items := by
  induction f generalizing opened with
  | complete offset => trivial
  | broken offset fault => trivial
  | item t offset rest ih =>
      simp only [eventsFrom]
      cases hRead : readToken opened t with
      | error fault => trivial
      | ok next =>
          have hDepth := depthAfter_of_readToken hRead
          refine ⟨hDepth.1, ?_⟩
          rw [← hDepth.2]
          exact ih next.2

/- The events of a file are balanced. -/
theorem balanced_events
    (bs : Bytes) :
    Balanced 0 (events bs).items :=
  balanced_eventsFrom [] (tokens bs)

/- What is left after reading is still balanced. -/
theorem balanced_restOf
    {n : Nat}
    {events : List Event}
    (hEvents : Balanced n events) :
    Balanced n (restOf events) := by
  induction events using readingInduction generalizing n with
  | nil => simpa only [read_nil] using hEvents
  | finish events => simpa only [read_finish] using hEvents
  | start tag attributes events ih ihTail =>
      simp only [read_start]
      apply ihTail
      have hRest := ih hEvents.2
      rcases restOf_eq events with hNil | ⟨after, hAfter⟩
      · rw [hNil]
        trivial
      · rw [hAfter] at hRest ⊢
        exact hRest.2
  | empty tag attributes events ih =>
      simp only [read_empty]
      exact ih hEvents.2
  | text content events ih =>
      simp only [read_text]
      exact ih hEvents.2
  | comment content events ih =>
      simp only [read_comment]
      exact ih hEvents.2
  | skipped events ih =>
      simp only [read_skipped]
      exact ih hEvents.2

/- Outside all elements, balanced events are read to the end. -/
theorem restOf_of_balanced
    {events : List Event}
    (hEvents : Balanced 0 events) :
    restOf events = [] := by
  rcases restOf_eq events with hNil | ⟨after, hAfter⟩
  · exact hNil
  · have hRest := balanced_restOf hEvents
    rw [hAfter] at hRest
    exact absurd (hRest.1 rfl) (Nat.lt_irrefl 0)

/-
  Reading closes every element before an end tag.  Without an
  end tag no more are closed than were opened.
-/
theorem openAfter_restOf
    (n : Nat)
    (events : List Event) :
    (restOf events ≠ [] →
        openAfter n events = openAfter n (restOf events)) ∧
      (restOf events = [] → n ≤ openAfter n events) := by
  induction events using readingInduction generalizing n with
  | nil => simp [openAfter]
  | finish events => simp
  | start tag attributes events ih ihTail =>
      have hInner := ih (n + 1)
      simp only [read_start, openAfter_cons, Event.depthAfter]
      rcases restOf_eq events with hNil | ⟨after, hAfter⟩
      · have hLe := hInner.2 hNil
        rw [hNil]
        simp only [List.tail_nil, read_nil]
        exact ⟨fun hNe => absurd rfl hNe, fun _ => by omega⟩
      · have hSkip :
            openAfter (n + 1) events = openAfter n after := by
          rw [hInner.1 (by simp [hAfter]), hAfter]
          rfl
        rw [hSkip]
        have hTail := ihTail n
        rw [hAfter] at hTail ⊢
        exact hTail
  | empty tag attributes events ih =>
      simp only [read_empty]
      exact ih n
  | text content events ih =>
      simp only [read_text]
      exact ih n
  | comment content events ih =>
      simp only [read_comment]
      exact ih n
  | skipped events ih =>
      simp only [read_skipped]
      exact ih n

/-
  Events of a document: one element at the top level, every
  element closed, and no visible text outside the root.
-/
structure SingleRooted
    (events : List Event)
    (root : Element) : Prop where
  elements_eq : Node.elements (forestOf events) = [root]
  closed : openAfter 0 events = 0
  blank :
    ∀ content, .text content ∈ forestOf events →
      Text.IsBlankText content

end Markup

------------------------------------------------------------
-- Assembling What Is Read
------------------------------------------------------------

namespace Assembly

open Markup

/- The end of an element at the top level makes it the root. -/
theorem step_finish_root
    (tag : String)
    (attributes : List Attribute)
    (nodes : List Node) :
    step
        ⟨[OpenElement.appendAll { tag, attributes }
          (Node.normalizeInside nodes)], none⟩ .finish =
      .ok ⟨[], some
        (Element.normalize ⟨tag, attributes, nodes⟩)⟩ := by
  simp [step, place, OpenElement.close_appendAll,
    Element.normalize]

/-
  Inside an open element, the events up to some rest add nodes
  to it.  Without a rest an element stays open.
-/
def Adds
    (events rest : List Event)
    (nodes : List Node)
    (e : OpenElement)
    (outer : List OpenElement)
    (root : Option Element) : Prop :=
  ∃ opened,
    opened ≠ [] ∧
      (rest ≠ [] → opened = e.appendAll nodes :: outer) ∧
      events.foldlM step ⟨e :: outer, root⟩ =
        rest.foldlM step ⟨opened, root⟩

/- An event that adds a node comes before those that follow. -/
theorem Adds.cons
    {event : Event}
    {events rest : List Event}
    {n : Node}
    {nodes : List Node}
    {e : OpenElement}
    {outer : List OpenElement}
    {root : Option Element}
    (hStep :
      step ⟨e :: outer, root⟩ event =
        .ok ⟨e.append n :: outer, root⟩)
    (hRest : Adds events rest nodes (e.append n) outer root) :
    Adds (event :: events) rest (n :: nodes) e outer root := by
  rcases hRest with ⟨opened, hOpened, hClosed, hSteps⟩
  refine ⟨opened, hOpened, ?_, ?_⟩
  · intro hMore
    rw [hClosed hMore, OpenElement.appendAll_append]
  · rw [foldlM_step_cons hStep, hSteps]

/- Events add the nodes that they are read as. -/
theorem adds_forestOf
    (events : List Event)
    (e : OpenElement)
    (outer : List OpenElement)
    (root : Option Element) :
    Adds events (restOf events)
      (Node.normalizeInside (forestOf events)) e outer
      root := by
  induction events using readingInduction
    generalizing e outer with
  | nil =>
      refine ⟨e :: outer, nofun, ?_, ?_⟩ <;> simp
  | finish events =>
      refine ⟨e :: outer, nofun, ?_, ?_⟩ <;>
        simp [Node.normalizeInside]
  | start tag attributes events ih ihTail =>
      have hStart :
          step ⟨e :: outer, root⟩ (.start tag attributes) =
            .ok ⟨{ tag, attributes } :: e :: outer, root⟩ :=
        rfl
      rcases ih { tag, attributes } (e :: outer) with
        ⟨inside, hInside, hClosed, hSteps⟩
      simp only [read_start]
      rcases restOf_eq events with hNil | ⟨after, hAfter⟩
      · refine ⟨inside, hInside, ?_, ?_⟩
        · simp [hNil]
        · rw [foldlM_step_cons hStart, hSteps, hNil]
          simp
      · rw [hAfter, List.tail_cons] at ihTail
        rcases ihTail
            (e.append (.element tag attributes
              (Node.dropGaps (Node.normalizeInside
                (forestOf events))))) outer with
          ⟨opened, hOpened, hRest, hTail⟩
        rw [hAfter, List.tail_cons]
        refine ⟨opened, hOpened, ?_, ?_⟩
        · intro hMore
          rw [hRest hMore]
          simp [Node.normalizeInside]
        · rw [foldlM_step_cons hStart, hSteps,
            hClosed (by simp [hAfter]), hAfter,
            foldlM_step_cons (step_finish ..), hTail]
  | empty tag attributes events ih =>
      simp only [read_empty, Node.normalizeInside]
      exact Adds.cons rfl (ih _ outer)
  | text content events ih =>
      have hText :
          step ⟨e :: outer, root⟩ (.text content) =
            .ok ⟨e.append (.text content) :: outer, root⟩ := by
        simp [step, appendNode]
      simp only [read_text, Node.normalizeInside]
      exact Adds.cons hText (ih _ outer)
  | comment content events ih =>
      simp only [read_comment, Node.normalizeInside]
      exact Adds.cons rfl (ih _ outer)
  | skipped events ih =>
      simp only [read_skipped]
      exact ih e outer

/- A fault at an event ends everything. -/
theorem foldlM_step_fault
    {a : Assembly}
    {e : Event}
    {fault : Fault}
    (hStep : a.step e = .error fault)
    (rest : List Event) :
    (e :: rest).foldlM step a = .error fault := by
  rw [List.foldlM_cons, hStep]
  rfl

section

variable {tag : String}
variable {attributes : List Attribute}
variable {events after : List Event}

/- An element without an end tag is still open at the end. -/
theorem foldlM_step_ne_of_unclosed
    (hRest : restOf events = [])
    (root final : Option Element) :
    (Event.start tag attributes :: events).foldlM step
        ⟨[], root⟩ ≠
      .ok ⟨[], final⟩ := by
  rcases adds_forestOf events { tag, attributes } [] root with
    ⟨opened, hOpened, _, hSteps⟩
  rw [foldlM_step_cons rfl, hSteps, hRest]
  intro h
  cases h
  exact absurd rfl hOpened

/-
  An element with an end tag has all its nodes when the end
  tag comes.
-/
theorem foldlM_step_of_closed
    (hRest : restOf events = .finish :: after)
    (root : Option Element) :
    (Event.start tag attributes :: events).foldlM step
        ⟨[], root⟩ =
      (Event.finish :: after).foldlM step
        ⟨[OpenElement.appendAll { tag, attributes }
          (Node.normalizeInside (forestOf events))],
          root⟩ := by
  rcases adds_forestOf events { tag, attributes } [] root with
    ⟨opened, _, hClosed, hSteps⟩
  rw [foldlM_step_cons rfl, hSteps, hClosed (by simp [hRest]),
    hRest]

/- The first element that is closed becomes the root. -/
theorem foldlM_step_first_root
    (hRest : restOf events = .finish :: after) :
    (Event.start tag attributes :: events).foldlM step
        ⟨[], none⟩ =
      after.foldlM step
        ⟨[], some (Element.normalize
          ⟨tag, attributes, forestOf events⟩)⟩ := by
  rw [foldlM_step_of_closed hRest,
    foldlM_step_cons (step_finish_root ..)]

/- The end of a second one is a fault. -/
theorem foldlM_step_second_root
    (hRest : restOf events = .finish :: after)
    (first : Element) :
    (Event.start tag attributes :: events).foldlM step
        ⟨[], some first⟩ =
      .error .extraRoot := by
  rw [foldlM_step_of_closed hRest]
  exact foldlM_step_fault rfl after

end

/-
  Outside all elements, balanced events end in a root exactly
  if they are read as one element, together with a root that
  is there before, every element is closed and the text at
  the top level is blank.
-/
theorem foldlM_step_root_iff
    {events : List Event}
    (hBalanced : Balanced 0 events)
    (root : Option Element)
    (final : Element) :
    events.foldlM step ⟨[], root⟩ = .ok ⟨[], some final⟩ ↔
      root.toList ++
            (Node.elements (forestOf events)).map
              Element.normalize =
          [final] ∧
        openAfter 0 events = 0 ∧
        ∀ content, .text content ∈ forestOf events →
          Text.IsBlankText content := by
  induction events using readingInduction
    generalizing root with
  | nil =>
      cases root <;>
        simp [Node.elements, openAfter, pure, Except.pure]
  | finish events => exact absurd (hBalanced.1 rfl) (by simp)
  | start tag attributes events _ ihTail =>
      have hDepth := openAfter_restOf 1 events
      simp only [read_start, openAfter_cons, Event.depthAfter,
        Nat.zero_add]
      rcases restOf_eq events with hNil | ⟨after, hAfter⟩
      · -- The element stays open, on either side.
        have hLe := hDepth.2 hNil
        constructor
        · intro h
          exact absurd h
            (foldlM_step_ne_of_unclosed hNil root _)
        · rintro ⟨_, hZero, _⟩
          omega
      · have hSkip :
            openAfter 1 events = openAfter 0 after := by
          rw [hDepth.1 (by simp [hAfter]), hAfter]
          rfl
        have hRest := balanced_restOf hBalanced.2
        rw [hAfter] at hRest ihTail
        rw [List.tail_cons] at ihTail
        rw [hAfter, List.tail_cons, hSkip]
        cases root with
        | none =>
            rw [foldlM_step_first_root hAfter,
              ihTail hRest.2]
            simp [Node.elements]
        | some first =>
            rw [foldlM_step_second_root hAfter]
            simp [Node.elements]
  | empty tag attributes events ih =>
      simp only [read_empty, openAfter_cons, Event.depthAfter]
      cases root with
      | none =>
          have hEmpty :
              step ⟨[], none⟩ (.empty tag attributes) =
                .ok ⟨[], some
                  (Element.normalize
                    ⟨tag, attributes, []⟩)⟩ := by
            simp [step, place, Element.normalize,
              Node.normalizeInside, Node.dropGaps]
          rw [foldlM_step_cons hEmpty, ih hBalanced.2]
          simp [Node.elements]
      | some first =>
          have hExtra :
              step ⟨[], some first⟩ (.empty tag attributes) =
                .error .extraRoot :=
            rfl
          rw [foldlM_step_fault hExtra]
          simp [Node.elements]
  | text content events ih =>
      simp only [read_text, openAfter_cons, Event.depthAfter]
      by_cases hBlank : Text.IsBlankText content
      · have hText :
            step ⟨[], root⟩ (.text content) =
              .ok ⟨[], root⟩ := by
          simp [step, hBlank, appendNode]
        rw [foldlM_step_cons hText, ih hBalanced.2]
        simp [Node.elements, hBlank]
      · have hStray :
            step ⟨[], root⟩ (.text content) =
              .error .strayText := by
          simp [step, hBlank]
        rw [foldlM_step_fault hStray]
        constructor
        · intro h
          cases h
        · rintro ⟨_, _, hAll⟩
          exact absurd
            (hAll content (List.mem_cons_self ..)) hBlank
  | comment content events ih =>
      have hComment :
          step ⟨[], root⟩ (.comment content) =
            .ok ⟨[], root⟩ :=
        rfl
      simp only [read_comment, openAfter_cons,
        Event.depthAfter]
      rw [foldlM_step_cons hComment, ih hBalanced.2]
      simp [Node.elements]
  | skipped events ih =>
      have hSkipped :
          step ⟨[], root⟩ .skipped = .ok ⟨[], root⟩ :=
        rfl
      simp only [read_skipped]
      rw [foldlM_step_cons hSkipped]
      exact ih hBalanced.2 root

/-
  An event that comes in its place is taken in and changes
  how many elements are open, or is stray text or the end of
  a second root.
-/
theorem step_of_balanced
    (a : Assembly)
    {e : Event}
    (hFinish : e = .finish → 0 < a.opened.length) :
    (∃ b, a.step e = .ok b ∧
        b.opened.length = e.depthAfter a.opened.length) ∨
      a.step e = .error .strayText ∨
      a.step e = .error .extraRoot := by
  rcases a with ⟨opened, root⟩
  have hPlace :
      ∀ outer element,
        (∃ b, place ⟨outer, root⟩ element = .ok b ∧
            b.opened.length = outer.length) ∨
          place ⟨outer, root⟩ element = .error .extraRoot := by
    intro outer element
    cases outer with
    | nil =>
        cases root with
        | none => exact Or.inl ⟨_, rfl, rfl⟩
        | some first => exact Or.inr rfl
    | cons parent outer => exact Or.inl ⟨_, rfl, rfl⟩
  have hAppend :
      ∀ n,
        (appendNode ⟨opened, root⟩ n).opened.length =
          opened.length := by
    intro n
    cases opened <;> rfl
  cases e with
  | start tag attributes => exact Or.inl ⟨_, rfl, rfl⟩
  | empty tag attributes =>
      rcases hPlace opened { tag, attributes } with h | h
      · exact Or.inl h
      · exact Or.inr (Or.inr h)
  | finish =>
      cases opened with
      | nil => exact absurd (hFinish rfl) (by simp)
      | cons e outer =>
          rcases hPlace outer e.close with h | h
          · exact Or.inl h
          · exact Or.inr (Or.inr h)
  | text content =>
      simp only [step]
      split
      · exact Or.inr (Or.inl rfl)
      · exact Or.inl ⟨_, rfl, hAppend _⟩
  | comment content => exact Or.inl ⟨_, rfl, hAppend _⟩
  | skipped => exact Or.inl ⟨_, rfl, rfl⟩

/- Balanced events fail only by stray text or a second root. -/
theorem fault_of_balanced
    {a : Assembly}
    {events : List Event}
    (hBalanced : Balanced a.opened.length events)
    {fault : Fault}
    (hFault : events.foldlM step a = .error fault) :
    fault = .strayText ∨ fault = .extraRoot := by
  induction events generalizing a with
  | nil => cases hFault
  | cons e events ih =>
      rcases step_of_balanced a hBalanced.1 with
        ⟨b, hStep, hDepth⟩ | hStray | hExtra
      · rw [foldlM_step_cons hStep] at hFault
        have hRest := hBalanced.2
        rw [← hDepth] at hRest
        exact ih hRest hFault
      · rw [foldlM_step_fault hStray] at hFault
        cases hFault
        exact Or.inl rfl
      · rw [foldlM_step_fault hExtra] at hFault
        cases hFault
        exact Or.inr rfl

end Assembly

------------------------------------------------------------
-- Parsing
------------------------------------------------------------

/- The faults of a tree whose markup has none. -/
def Markup.Fault.OfTree : Fault → Prop
  | .extraRoot => True
  | .strayText => True
  | .unclosedElement _ => True
  | .noRoot => True
  | _ => False

namespace Document

open Markup

/-
  A feed without a fault is assembled by taking in its events
  and looking at what is left.
-/
theorem assemble_of_complete
    {f : Feed Event}
    (hComplete : f.Complete)
    (a : Assembly) :
    ∃ offset,
      assemble a f =
        match f.items.foldlM Assembly.step a with
        | .ok b => b.finish offset
        | .error fault => .error ⟨offset, fault⟩ := by
  induction f generalizing a with
  | complete offset => exact ⟨offset, rfl⟩
  | broken offset fault => cases hComplete
  | item e offset rest ih =>
      simp only [assemble, Feed.items]
      cases hStep : a.step e with
      | error fault =>
          refine ⟨offset, ?_⟩
          rw [List.foldlM_cons, hStep]
          rfl
      | ok b =>
          rw [Assembly.foldlM_step_cons hStep]
          exact ih hComplete b

/- What is left is a document if it is a root alone. -/
theorem finish_eq_ok_iff
    (a : Assembly)
    (offset : Nat)
    (d : Document) :
    a.finish offset = .ok d ↔ a = ⟨[], some d.root⟩ := by
  rcases a with ⟨_ | ⟨e, outer⟩, _ | root⟩
  · simp [Assembly.finish]
  · cases d
    simp [Assembly.finish]
  · simp [Assembly.finish]
  · simp [Assembly.finish]

/- What is left is else a fault of the tree. -/
theorem ofTree_of_finish
    {a : Assembly}
    {offset : Nat}
    {m : Malformed}
    (hFinish : a.finish offset = .error m) :
    m.fault.OfTree := by
  rcases a with ⟨_ | ⟨e, outer⟩, _ | root⟩ <;>
    cases hFinish <;> trivial

/- Files without faults are parsed by taking in all events. -/
theorem parse_eq_ok_iff_foldlM
    {bs : Bytes}
    (hComplete : (Markup.events bs).Complete)
    (d : Document) :
    parse bs = .ok d ↔
      (Markup.events bs).items.foldlM Assembly.step {} =
        .ok ⟨[], some d.root⟩ := by
  rcases assemble_of_complete hComplete {} with
    ⟨offset, hParse⟩
  rw [parse, hParse]
  cases (Markup.events bs).items.foldlM Assembly.step {} with
  | error fault => simp
  | ok b => simp [finish_eq_ok_iff]

/- Files without faults in their markup have faults of trees. -/
theorem ofTree_of_parse
    {bs : Bytes}
    (hComplete : (Markup.events bs).Complete)
    {m : Malformed}
    (hParse : parse bs = .error m) :
    m.fault.OfTree := by
  rcases assemble_of_complete hComplete {} with
    ⟨offset, hAssemble⟩
  rw [parse, hAssemble] at hParse
  cases hSteps :
      (Markup.events bs).items.foldlM Assembly.step {} with
  | error fault =>
      rw [hSteps] at hParse
      cases hParse
      have hBalanced :
          Balanced (Assembly.opened {}).length
            (Markup.events bs).items :=
        balanced_events bs
      rcases Assembly.fault_of_balanced hBalanced hSteps with
        rfl | rfl <;> trivial
  | ok b =>
      rw [hSteps] at hParse
      exact ofTree_of_finish hParse

/-
  A file whose markup has no fault is read to its end, and it
  is a document exactly if its events are read as one closed
  element with nothing but blank text around it.  The document
  is this element without gaps.  Any other such file has a
  fault of the tree.
-/
theorem parse_eq_ok_iff_singleRooted
    (bs : Bytes)
    (hComplete : (Markup.events bs).Complete) :
    restOf (Markup.events bs).items = [] ∧
      (∀ d,
        parse bs = .ok d ↔
          ∃ root,
            SingleRooted (Markup.events bs).items root ∧
              d = normalize ⟨root⟩) ∧
      ((¬ ∃ root,
          SingleRooted (Markup.events bs).items root) →
        ∃ m, parse bs = .error m ∧ m.fault.OfTree) := by
  have hOk :
      ∀ d,
        parse bs = .ok d ↔
          ∃ root,
            SingleRooted (Markup.events bs).items root ∧
              d = normalize ⟨root⟩ := by
    intro d
    rw [parse_eq_ok_iff_foldlM hComplete,
      Assembly.foldlM_step_root_iff (balanced_events bs)]
    simp only [Option.toList_none, List.nil_append,
      List.map_eq_singleton_iff]
    constructor
    · rintro ⟨⟨root, hElements, hRoot⟩, hClosed, hBlank⟩
      refine ⟨root, ⟨hElements, hClosed, hBlank⟩, ?_⟩
      rw [normalize, hRoot]
    · rintro ⟨root, ⟨hElements, hClosed, hBlank⟩, rfl⟩
      exact ⟨⟨root, hElements, rfl⟩, hClosed, hBlank⟩
  refine ⟨restOf_of_balanced (balanced_events bs), hOk, ?_⟩
  intro hNone
  cases hParse : parse bs with
  | ok d =>
      rcases (hOk d).mp hParse with ⟨root, hRoot, _⟩
      exact absurd ⟨root, hRoot⟩ hNone
  | error m => exact ⟨m, rfl, ofTree_of_parse hComplete hParse⟩

/-
  A file with a declaration, comments inside and outside the
  root, gaps, and character data beside a CDATA section.
-/
def sampleFile : Bytes :=
  Utf8.encode
    ("<?xml version=\"1.0\"?><!--top--> <a k=\"1\">\n" ++
      "<b> <![CDATA[<]]>x&gt;</b> <!--inside--><c/></a>\n")

/- The element that the events of the sample file spell. -/
def sampleRoot : Element where
  tag := "a"
  attributes := [⟨"k", "1"⟩]
  children :=
    [.text "\n",
     .element "b" [] [.text " ", .text "<", .text "x>"],
     .text " ",
     .comment "inside",
     .element "c" [] []]

/- The sample file is parsed without its gaps. -/
theorem parse_sampleFile :
    (Markup.events sampleFile).Complete ∧
      SingleRooted (Markup.events sampleFile).items
        sampleRoot ∧
      parse sampleFile =
        .ok ⟨{ sampleRoot with
          children :=
            [.element "b" []
              [.text " ", .text "<", .text "x>"],
             .comment "inside",
             .element "c" [] []] }⟩ := by
  have hComplete : (Markup.events sampleFile).Complete := by
    decide +kernel
  have hItems :
      (Markup.events sampleFile).items =
        [.skipped, .comment "top", .text " ",
         .start "a" [⟨"k", "1"⟩], .text "\n",
         .start "b" [], .text " ", .text "<", .text "x>",
         .finish, .text " ", .comment "inside",
         .empty "c" [], .finish, .text "\n"] := by
    decide +kernel
  have hBreak : Text.IsBlankText "\n" := by decide +kernel
  have hSpace : Text.IsBlankText " " := by decide +kernel
  have hRoot :
      SingleRooted (Markup.events sampleFile).items
        sampleRoot := by
    rw [hItems]
    constructor
    · simp [Node.elements, sampleRoot]
    · rfl
    · simp [hBreak, hSpace]
  have hNormal :
      normalize ⟨sampleRoot⟩ =
        ⟨{ sampleRoot with
          children :=
            [.element "b" []
              [.text " ", .text "<", .text "x>"],
             .comment "inside",
             .element "c" [] []] }⟩ := by
    simp [normalize, Element.normalize, sampleRoot,
      Node.normalizeInside, Node.dropGaps, Node.isElement,
      hBreak, hSpace]
  refine ⟨hComplete, hRoot, ?_⟩
  rw [← hNormal]
  exact ((parse_eq_ok_iff_singleRooted sampleFile
    hComplete).2.1 _).mpr ⟨sampleRoot, hRoot, rfl⟩

end Document

end AutomataStore
