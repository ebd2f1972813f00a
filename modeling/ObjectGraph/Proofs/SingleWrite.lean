import ObjectGraph.Proofs.GrantIndependence

/-!
# Assignments write once

An assignment navigates along all but the end of its expression. Then it sets a variable of the
context, or it makes one attempt to write to one member of a host object and ends. So it changes
one variable and nothing on the host but what navigation did, or one place on the host and nothing
in the context; a failed one leaves the context as it was.
-/
namespace ObjectGraph

variable {σ α β : Type}

/-! ## One passage -/

namespace Shared

theorem host_revoke (s : Shared σ) (m : Member) : (s.revoke m).2.host = s.host := by
  unfold revoke
  split
  · rfl
  · exact s.host_setGrant m _

end Shared

/-- What a passage comes to that asks a policy and makes an attempt: nothing is done and the
passage fails, or the attempt is made once, in the state that the host is in, and a success is the
attempt's own. -/
inductive Passed (access : Access) (attempt : Attempt σ α) (w : World σ) :
    Except EvalError α → World σ → Prop
  | withheld {error : EvalError} {w' : World σ} (asked : List Event)
      (htrail : w'.trail.toList = w.trail.toList ++ asked)
      (hasked : ∀ event ∈ asked, event.isPolicing = true) (hhost : w'.host = w.host) :
      Passed access attempt w (.error error) w'
  | made {result : Except EvalError α} {w' : World σ} (before after : List Event)
      (htrail : w'.trail.toList = w.trail.toList ++
        (before ++ .reached access attempt.call (attempt.endingAt w.host) :: after))
      (hbefore : ∀ event ∈ before, event.isPolicing = true)
      (hafter : ∀ event ∈ after, event.isPolicing = true)
      (hhost : w'.host = attempt.hostAfter w.host)
      (hresult : ∀ x, result = .ok x → attempt.resultAt w.host = .ok x) :
      Passed access attempt w result w'

theorem settled_eq_ok {result : Except EvalError α} {released : Except AccessError Unit} {x : α}
    (h : settled result released = .ok x) : result = .ok x := by
  cases result with
  | error e => cases h
  | ok y =>
    cases released with
    | error e => cases h
    | ok u => exact h

theorem VisibilityPolicy.passed (p : VisibilityPolicy) (b : Bindings) (access : Access)
    (attempt : Attempt σ α) (w : World σ) :
    Passed access attempt w (elevated p.toPolicy b access attempt w).1
      (elevated p.toPolicy b access attempt w).2 := by
  cases hp : p.permits access.member.visibility with
  | false =>
    rw [p.elevated_of_denied b attempt w hp]
    exact .withheld _ (w.toList_trail_record _) (by simp [Event.isPolicing]) rfl
  | true =>
    cases hflag : (w.grants access.member).flag with
    | true =>
      rw [p.elevated_of_flagged b attempt w hp hflag, attempt.perform_apply]
      refine .made [.asked access true true] [] ?_ ?_ ?_ rfl fun _ h => h
      · simp [World.record]
      · simp [Event.isPolicing]
      · simp
    | false =>
      rw [p.elevated_of_unflagged b attempt w hp hflag]
      refine .made [.asked access true false, .setUp access (.elevated false) false]
        [.restored access (.elevated false)] ?_ ?_ ?_ ?_ fun _ => settled_eq_ok
      · simp
      · simp [Event.isPolicing]
      · simp [Event.isPolicing]
      · exact Shared.host_revoke _ _

/-! ## Navigation writes nothing -/

def Call.isWrite : Call → Bool
  | write _ => true
  | indexWrite _ _ => true
  | _ => false

/-- An event of navigation: nothing is written, and no assignment begins. -/
def Event.ofReading : Event → Bool
  | reached _ call _ => !call.isWrite
  | assigning _ _ _ => false
  | _ => true

theorem Event.ofReading_of_isPolicing {event : Event} (h : event.isPolicing = true) :
    event.ofReading = true := by
  cases event <;> first | rfl | cases h

/-- Whatever the run does, it writes nothing and begins no assignment. -/
def Reads (a : Run σ EvalError α) : Prop :=
  ∀ w : World σ, w.GrowsBy (fun event => event.ofReading = true) (a w).2

namespace Reads

theorem pure (x : α) : Reads (Pure.pure x : Run σ EvalError α) := fun w => .refl w

theorem fail (e : EvalError) : Reads (Action.fail e : Run σ EvalError α) := fun w => .refl w

theorem bind {a : Run σ EvalError α} {f : α → Run σ EvalError β} (ha : Reads a)
    (hf : ∀ x, Reads (f x)) : Reads (a >>= f) := by
  intro w
  have hfirst := ha w
  obtain ⟨e, w', hr, hbind⟩ | ⟨x, w', hr, hbind⟩ := Action.bind_cases a f w
  · rw [hr] at hfirst
    rw [hbind]
    exact hfirst
  · rw [hr] at hfirst
    rw [hbind]
    exact hfirst.trans (hf x w')

theorem sequenced : Sequenced fun {_} (a _ : Run σ EvalError _) => Reads a where
  pure := .pure
  bind := .bind

variable {ctx : Context σ} {p : VisibilityPolicy}

theorem navigate (step : Step) {a : Run σ EvalError Value} (h : Reads a) :
    Reads (Navigation.navigate ctx step a) := by
  have hrecord : Reads (World.recording (.navigated step) a) := fun w => (h w).record rfl
  refine hrecord.bind fun value => ?_
  split
  · intro w
    unfold NullHandlers.fill
    split
    · exact .refl w
    · exact World.GrowsBy.record ⟨[], by simp, by simp⟩ rfl
  · exact .pure value

theorem reach (hpolicy : ctx.policy = p.toPolicy) (o : ObjectRef) (member : Member)
    (property : String) {attempt : Attempt σ α} (h : attempt.call.isWrite = false) :
    Reads (Navigation.reach ctx o member property attempt) := by
  intro w
  have hpassed := p.passed ctx.toBindings ⟨.object o, member, property⟩ attempt w
  rw [← hpolicy] at hpassed
  unfold Navigation.reach
  rcases hrun : elevated ctx.policy ctx.toBindings ⟨.object o, member, property⟩ attempt w
    with ⟨r, w'⟩
  rw [hrun] at hpassed
  cases hpassed with
  | withheld _ htrail hasked _ =>
    exact ⟨_, htrail, fun event hmem => Event.ofReading_of_isPolicing (hasked event hmem)⟩
  | made _ _ htrail hbefore hafter _ _ =>
    refine ⟨_, htrail, fun event hmem => ?_⟩
    rcases List.mem_append.1 hmem with hmem | hmem
    · exact Event.ofReading_of_isPolicing (hbefore event hmem)
    · rcases List.mem_cons.1 hmem with rfl | hmem
      · simp [Event.ofReading, h]
      · exact Event.ofReading_of_isPolicing (hafter event hmem)

theorem readProperty {classes : Registry σ} (hpolicy : ctx.policy = p.toPolicy) (o : ObjectRef)
    (name : String) : Reads (Navigation.readProperty classes ctx o name) := by
  unfold Navigation.readProperty
  split
  · rename_i found _
    cases found with
    | field name f => exact reach hpolicy o _ _ rfl
    | getter name m => exact reach hpolicy o _ _ rfl
  · exact .fail _

theorem host {classes : Registry σ} (hpolicy : ctx.policy = p.toPolicy) :
    HostRelated classes classes ctx ctx fun {_} (a _ : Run σ EvalError _) => Reads a where
  bindings := rfl
  fail _ := .fail _
  navigate step _ _ h := h.navigate step
  property := readProperty hpolicy
  index o key := by
    simp only [Navigation.indexOf]
    split
    · exact reach hpolicy o _ indexerName rfl
    · split
      · exact readProperty hpolicy o _
      · exact .fail _
  method o name args := by
    simp only [Navigation.resultOf]
    split
    · exact reach hpolicy o _ name rfl
    · exact .fail _

theorem evaluate {classes : Registry σ} (hpolicy : ctx.policy = p.toPolicy) (e : Expr)
    (here : Value) : Reads (e.evaluate classes ctx here) :=
  e.related_evaluate sequenced ((host hpolicy).steps sequenced) here

end Reads

/-! ## The one write -/

/-- The member of a host object through which the value is written under that key, and the attempt
that writes it. -/
inductive WriteOf (classes : Registry σ) (o : ObjectRef) (value : Value) :
    Key → Member → {α : Type} → Attempt σ α → Prop
  | field {name : String} {f : Field σ} (h : (classes o.cls).field? name = some f) :
      WriteOf classes o value (.name name) (f.member o.cls name)
        (f.writing (f.member o.cls name) o.handle value)
  | setter {name setter : String} {m : Method σ} (hfield : (classes o.cls).field? name = none)
      (h : (classes o.cls).setter? name = some (setter, m)) :
      WriteOf classes o value (.name name) (m.member o.cls setter)
        (m.invoking setter o.handle [value])
  | indexer {key : Value} {ix : Indexer σ} (h : (classes o.cls).indexer = some ix) :
      WriteOf classes o value (.index key) (ix.member o.cls)
        (ix.writing o.cls o.handle key value)
  /-- Without an indexer, a key that is a string is the name of a property. -/
  | named {name : String} {member : Member} {α : Type} {attempt : Attempt σ α}
      (hindexer : (classes o.cls).indexer = none)
      (h : WriteOf classes o value (.name name) member attempt) :
      WriteOf classes o value (.index (.string name)) member attempt

/-- What the assignment of the value under a key of a target comes to. -/
inductive Written (classes : Registry σ) (target value : Value) (key : Key) (w : World σ) :
    Except EvalError Unit → World σ → Prop
  /-- There is no member for it, or the policy withholds it. -/
  | withheld {error : EvalError} {w' : World σ} (asked : List Event)
      (htrail : w'.trail.toList = w.trail.toList ++ asked)
      (hasked : ∀ event ∈ asked, event.isPolicing = true) (hhost : w'.host = w.host) :
      Written classes target value key w (.error error) w'
  /-- One attempt is made, and success is the attempt's success. -/
  | made {o : ObjectRef} {member : Member} {property : String} {α : Type} {attempt : Attempt σ α}
      {result : Except EvalError Unit} {w' : World σ} (before after : List Event)
      (htarget : target = .object o) (hattempt : WriteOf classes o value key member attempt)
      (htrail : w'.trail.toList = w.trail.toList ++ (before ++
        .reached ⟨target, member, property⟩ attempt.call (attempt.endingAt w.host) :: after))
      (hbefore : ∀ event ∈ before, event.isPolicing = true)
      (hafter : ∀ event ∈ after, event.isPolicing = true)
      (hhost : w'.host = attempt.hostAfter w.host)
      (hresult : result = .ok () → ∃ x, attempt.resultAt w.host = .ok x) :
      Written classes target value key w result w'

/-- The run is such an assignment. -/
def Writes (classes : Registry σ) (target value : Value) (key : Key)
    (a : Run σ EvalError Unit) : Prop :=
  ∀ w : World σ, Written classes target value key w (a w).1 (a w).2

namespace Writes

variable {classes : Registry σ} {ctx : Context σ} {p : VisibilityPolicy} {value : Value} {key : Key}

theorem fail {target : Value} (e : EvalError) :
    Writes classes target value key (Action.fail e) :=
  fun _ => .withheld [] (List.append_nil _).symm (fun _ hmem => nomatch hmem) rfl

/-- What the attempt yields is dropped. -/
theorem reach (hpolicy : ctx.policy = p.toPolicy) {o : ObjectRef} {member : Member}
    {attempt : Attempt σ α} (hattempt : WriteOf classes o value key member attempt)
    (property : String) :
    Writes classes (.object o) value key
      (do let _ ← Navigation.reach ctx o member property attempt) := by
  intro w
  have hpassed := p.passed ctx.toBindings ⟨.object o, member, property⟩ attempt w
  rw [← hpolicy] at hpassed
  obtain ⟨e, w', hr, hbind⟩ | ⟨x, w', hr, hbind⟩ :=
    Action.bind_cases (Navigation.reach ctx o member property attempt) (fun _ => pure ()) w
  · rw [Navigation.reach] at hr
    rw [hr] at hpassed
    rw [hbind]
    cases hpassed with
    | withheld _ htrail hasked hhost => exact .withheld _ htrail hasked hhost
    | made _ _ htrail hbefore hafter hhost _ =>
      exact .made _ _ rfl hattempt htrail hbefore hafter hhost fun hok => by cases hok
  · rw [Navigation.reach] at hr
    rw [hr] at hpassed
    rw [hbind]
    cases hpassed with
    | made _ _ htrail hbefore hafter hhost hresult =>
      exact .made _ _ rfl hattempt htrail hbefore hafter hhost fun _ => ⟨x, hresult x rfl⟩

theorem reach_unit (hpolicy : ctx.policy = p.toPolicy) {o : ObjectRef} {member : Member}
    {attempt : Attempt σ Unit} (hattempt : WriteOf classes o value key member attempt)
    (property : String) :
    Writes classes (.object o) value key (Navigation.reach ctx o member property attempt) := by
  have h := reach hpolicy hattempt property
  rw [bind_pure_unit] at h
  exact h

/-- Under a key that stands for that name, too. -/
theorem writeProperty (hpolicy : ctx.policy = p.toPolicy) (target : Value) (name : String)
    (hkey : ∀ (o : ObjectRef) {member : Member} {α : Type} {attempt : Attempt σ α},
      target = .object o → WriteOf classes o value (.name name) member attempt →
        WriteOf classes o value key member attempt) :
    Writes classes target value key (Navigation.writeProperty classes ctx target name value) := by
  cases target with
  | object o =>
    simp only [Navigation.writeProperty]
    split
    · rename_i f hfield
      exact reach_unit hpolicy (hkey o rfl (.field hfield)) name
    · rename_i hfield
      split
      · rename_i setter m hsetter
        exact reach hpolicy (hkey o rfl (.setter hfield hsetter)) name
      · exact .fail _
  | _ => exact .fail _

theorem writeIndex (hpolicy : ctx.policy = p.toPolicy) (target index : Value) :
    Writes classes target value (.index index)
      (Navigation.writeIndex classes ctx target index value) := by
  cases target with
  | object o =>
    simp only [Navigation.writeIndex]
    split
    · rename_i ix hindexer
      exact reach_unit hpolicy (.indexer hindexer) indexerName
    · rename_i hindexer
      split
      · rename_i name
        refine writeProperty hpolicy (.object o) name fun o' _ _ _ ho h => ?_
        cases ho
        exact .named hindexer h
      · exact .fail _
  | _ => exact .fail _

end Writes

/-! ## Assignment -/

/-- The key that an expression at the end of an assignment stands for; an index key is evaluated. -/
inductive Expr.Designates : Expr → Key → Prop
  | property (name : String) : Designates (.property name) (.name name)
  | index (key : Expr) (value : Value) : Designates (.index key) (.index value)

/-- The end of an assignment after its navigation: it fails without a write, sets a variable, or
makes one write, which it announces. -/
inductive Concluded (classes : Registry σ) (value : Value) (tip : Expr) (w : World σ) :
    Except EvalError Unit → World σ → Prop
  | failed (error : EvalError) : Concluded classes value tip w (.error error) w
  | variable {name : String} (htip : tip = .var name) : Concluded classes value tip w (.ok ()) w
  | written {target : Value} {key : Key} {result : Except EvalError Unit} {w' : World σ}
      (hkey : tip.Designates key)
      (hwritten : Written classes target value key (w.record (.assigning target key value))
        result w') :
      Concluded classes value tip w result w'

/-- What an assignment that ends at `tip` leaves of a session. -/
structure AssignsOnce (classes : Registry σ) (value : Value) (tip : Expr) (s : Session σ)
    (r : Except EvalError Unit × Session σ) : Prop where
  failure : ∀ error, r.1 = .error error → r.2.context = s.context
  success : r.1 = .ok () →
    (∃ name, tip = .var name ∧ r.2.context = s.context.setVariable name value) ∨
      (∃ key, tip.Designates key) ∧ r.2.context = s.context
  conclusion : ∃ navigated : World σ,
    s.world.GrowsBy (fun event => event.ofReading = true) navigated ∧
      Concluded classes value tip navigated r.1 r.2.world

namespace AssignsOnce

variable {classes : Registry σ} {value : Value} {tip : Expr} {s : Session σ}

theorem refused (what : String) :
    AssignsOnce classes value tip s (Action.fail (.notAssignable what) s) where
  failure _ _ := rfl
  success h := nomatch h
  conclusion := ⟨s.world, .refl _, .failed _⟩

/-- The step that writes to the host. -/
theorem written {target : Value} {key : Key} (write : Context σ → Run σ EvalError Unit)
    (hkey : tip.Designates key) (hwrite : Writes classes target value key (write s.context)) :
    AssignsOnce classes value tip s (Session.reading (fun ctx => do
      World.note (.assigning target key value)
      write ctx) s) where
  failure _ _ := rfl
  success _ := .inr ⟨⟨key, hkey⟩, rfl⟩
  conclusion := ⟨s.world, .refl _, .written hkey (hwrite (s.world.record _))⟩

/-- A step of navigation before the assignment. -/
theorem navigated {f : Context σ → Run σ EvalError α} {g : α → Action (Session σ) EvalError Unit}
    (hf : Reads (f s.context))
    (hg : ∀ x world, AssignsOnce classes value tip { s with world } (g x { s with world })) :
    AssignsOnce classes value tip s ((Session.reading f >>= g) s) := by
  have hgrows := hf s.world
  obtain ⟨e, u, hr, hbind⟩ | ⟨x, u, hr, hbind⟩ := Action.bind_cases (Session.reading f) g s
  · rw [hbind]
    rw [Session.reading, Prod.mk.injEq] at hr
    obtain ⟨-, rfl⟩ := hr
    exact ⟨fun _ _ => rfl, (fun hok => by cases hok), _, hgrows, .failed e⟩
  · rw [hbind]
    rw [Session.reading, Prod.mk.injEq] at hr
    obtain ⟨-, rfl⟩ := hr
    obtain ⟨hfailure, hsuccess, w, hnext, hconcluded⟩ := hg x (f s.context s.world).2
    exact ⟨hfailure, hsuccess, w, hgrows.trans hnext, hconcluded⟩

end AssignsOnce

namespace Expr

variable {classes : Registry σ} {p : VisibilityPolicy}

mutual
theorem assigns_once : ∀ (e : Expr) (here value : Value) (s : Session σ),
    s.context.policy = p.toPolicy →
      AssignsOnce classes value e.tip s (e.assign classes here value s)
  | var name, _, _, s, _ =>
    ⟨nofun, fun _ => .inl ⟨name, rfl, rfl⟩, s.world, .refl s.world, .variable rfl⟩
  | property name, here, value, _, hpolicy =>
    .written (fun ctx => Navigation.writeProperty classes ctx here name value) (.property name)
      (Writes.writeProperty hpolicy here name fun _ _ _ _ _ h => h)
  | index key, here, value, s, hpolicy =>
    .navigated (Reads.evaluate hpolicy key s.context.root) fun k _ =>
      .written (fun ctx => Navigation.writeIndex classes ctx here k value) (.index key k)
        (Writes.writeIndex hpolicy here k)
  | chain links, here, value, s, hpolicy => assigns_once_links links here value s hpolicy
  | const _, _, _, _, _ => .refused _
  | root, _, _, _, _ => .refused _
  | source, _, _, _, _ => .refused _
  | subscript _, _, _, _, _ => .refused _
  | method _ _, _, _, _, _ => .refused _
  | not _, _, _, _, _ => .refused _
  | logical _ _, _, _, _, _ => .refused _
  | compare _ _ _, _, _, _, _ => .refused _
termination_by structural e => e

theorem assigns_once_links : ∀ (links : List Expr) (here value : Value) (s : Session σ),
    s.context.policy = p.toPolicy →
      AssignsOnce classes value (tipOfLinks links) s (assignLinks classes links here value s)
  | [], _, _, _, _ => .refused _
  | [last], here, value, s, hpolicy => assigns_once last here value s hpolicy
  | link :: next :: links, here, value, s, hpolicy =>
    .navigated (Reads.evaluate hpolicy link here) fun target world =>
      assigns_once_links (next :: links) target value { s with world } hpolicy
termination_by structural links => links
end

end Expr

/-- Under a policy of switches, an assignment that fails leaves the context as it was, and one that
succeeds sets the one variable that its expression ends in, or the expression ends in a property or
an index and the context stays as it was. What happens in the world is navigation, which writes
nothing, and then at most one write, which passes the assigned value to one member of the target.
No host code runs after it, and without its success an assignment to anything but a variable
fails. -/
theorem assignment_changes_one_place (classes : Registry σ) {p : VisibilityPolicy} {s : Session σ}
    (hpolicy : s.context.policy = p.toPolicy) (e : Expr) (here value : Value) :
    let r := e.assign classes here value s
    (∀ error, r.1 = .error error → r.2.context = s.context) ∧
    (r.1 = .ok () →
      (∃ name, e.tip = .var name ∧ r.2.context = s.context.setVariable name value ∧
        ∀ n, r.2.context.vars.find? n = if n = name then some value else s.context.vars.find? n) ∨
      (∃ key, e.tip.Designates key) ∧ r.2.context = s.context) ∧
    ∃ navigated : World σ, s.world.GrowsBy (fun event => event.ofReading = true) navigated ∧
      Concluded classes value e.tip navigated r.1 r.2.world := by
  intro r
  have honce : AssignsOnce classes value e.tip s r := e.assigns_once here value s hpolicy
  obtain ⟨hfailure, hsuccess, hconclusion⟩ := honce
  refine ⟨hfailure, fun hok => ?_, hconclusion⟩
  obtain ⟨name, htip, hcontext⟩ | hhost := hsuccess hok
  · refine .inl ⟨name, htip, hcontext, fun n => ?_⟩
    rw [hcontext]
    exact s.context.vars.find?_insert name n value
  · exact .inr hhost

/-- A private method stands in for a field that is not there. -/
theorem assignment_changes_one_place_by_setter :
    let dial : ClassTable Int64 :=
      ClassTable.build [.method "set_level" .isPrivate 1 fun _ args level =>
        (.ok .null, match args with | [.integer n] => n | _ => level)]
    let p : VisibilityPolicy := .all true
    let ctx : Context Int64 :=
      Context.new (.map (Dict.ofList [("dial", .object ⟨⟨0, "Dial"⟩, "d"⟩)]))
    let s : Session Int64 := ⟨ctx.withPolicy p.toPolicy, World.start 3⟩
    let e := Expr.chain [.property "dial", .chain [.property "level"]]
    let r := e.assign (fun _ => dial) ctx.root (.integer 7) s
    s.context.policy = p.toPolicy ∧ r.1 = .ok () ∧ r.2.world.host = 7 ∧
      r.2.context = s.context ∧ ∃ navigated : World Int64,
        s.world.GrowsBy (fun event => event.ofReading = true) navigated ∧
          Concluded (fun _ => dial) (.integer 7) (.property "level") navigated r.1 r.2.world := by
  intro dial p ctx s e r
  obtain ⟨-, hsuccess, hconclusion⟩ :=
    assignment_changes_one_place (fun _ => dial) (p := p) (s := s) rfl e ctx.root (.integer 7)
  have hok : r.1 = .ok () := by rfl
  have hhost : r.2.world.host = 7 := by rfl
  have hcontext : r.2.context = s.context := by
    obtain ⟨name, htip, -⟩ | ⟨-, hcontext⟩ := hsuccess hok
    · cases htip
    · exact hcontext
  exact ⟨rfl, hok, hhost, hcontext, hconclusion⟩

end ObjectGraph
