import Jam.Command.Options

/-!
A switch in front of all other arguments. It is on from there on, and otherwise the arguments are
read as they are without it, unless they turn the same switch on once more.
-/
namespace Jam

theorem bind_eq_ok_iff {ε α β : Type} {x : Except ε α} {f : α → Except ε β} {b : β} :
    x >>= f = .ok b ↔ ∃ a, x = .ok a ∧ f a = .ok b := by
  cases x with
  | error e => exact ⟨nofun, nofun⟩
  | ok a => exact ⟨fun h => ⟨a, rfl, h⟩, fun ⟨_, ha, h⟩ => by cases ha; exact h⟩

namespace Options

variable {s : Switch}

namespace Given

/-- A switch is on from the start. Help and version are no switches of a run. -/
def on (s : Switch) (g : Given) : Given :=
  match s with
  | .tokens => { g with tokens := true }
  | .print => { g with print := true }
  | .listFormats => { g with listFormats := true }
  | .help | .version => g

def isOn (s : Switch) (g : Given) : Bool :=
  match s with
  | .tokens => g.tokens
  | .print => g.print
  | .listFormats => g.listFormats
  | .help | .version => false

variable {g g' : Given}

theorem settle_on (s : Switch) (g : Given) (slot : Slot) (value : Option String) :
    (g.on s).settle slot value = (g.settle slot value).map (on s) := by
  cases value with
  | none => rfl
  | some v =>
    have hhas : (g.on s).has slot = g.has slot := by cases s <;> cases slot <;> rfl
    have hset : (g.on s).set v slot = (g.set v slot).on s := by cases s <;> cases slot <;> rfl
    simp only [settle, hhas, hset]
    split
    · rfl
    · split <;> rfl

theorem isOn_of_settle {slot : Slot} {value : Option String} (h : g.settle slot value = .ok g') :
    g'.isOn s = g.isOn s := by
  unfold settle at h
  split at h
  · cases h
  · split at h
    · cases h
    · split at h
      · cases h
      · cases h
        cases s <;> cases slot <;> rfl

/-- To turn on a switch is not to look at another one. -/
theorem turnOn_on {t : Switch} (h : g.turnOn t = .ok g') (hoff : g'.isOn s = false) :
    g.isOn s = false ∧ (g.on s).turnOn t = .ok (g'.on s) := by
  cases t with
  | help => cases h
  | version => cases h
  | tokens => cases s <;> grind [turnOn, isOn, on]
  | print => cases s <;> grind [turnOn, isOn, on]
  | listFormats => cases s <;> grind [turnOn, isOn, on]

end Given

namespace Reading

def on (s : Switch) (r : Reading) : Reading := { r with given := r.given.on s }

variable {r r' : Reading}

theorem settled_on (s : Switch) (r : Reading) : (r.on s).settled = r.settled.map (Given.on s) := by
  unfold settled
  cases h : r.pending with
  | none => simp [on, h, Except.map]
  | some waiting => simp [on, h, Given.settle_on]

theorem settled_on_of_ok {g : Given} (h : r.settled = .ok g) (s : Switch) :
    (r.on s).settled = .ok (g.on s) := by
  rw [settled_on, h]
  rfl

theorem isOn_of_settled {g : Given} (h : r.settled = .ok g) : g.isOn s = r.given.isOn s := by
  unfold settled at h
  split at h
  · cases h
    rfl
  · exact Given.isOn_of_settle h

/-- A step of reading that leaves the switch off goes the same way with the switch on. -/
def Ignores (s : Switch) (step : Reading → Except Stop Reading) : Prop :=
  ∀ r r', step r = .ok r' → r'.given.isOn s = false →
    r.given.isOn s = false ∧ step (r.on s) = .ok (r'.on s)

theorem ignores_error (stop : Stop) : Ignores s fun _ => .error stop := by
  intro r r' h
  cases h

theorem ignores_ok : Ignores s Except.ok := by
  intro r r' h hoff
  cases h
  exact ⟨hoff, rfl⟩

theorem Ignores.bind {step next : Reading → Except Stop Reading} (hstep : Ignores s step)
    (hnext : Ignores s next) : Ignores s fun r => step r >>= next := by
  intro r r' h hoff
  obtain ⟨between, hbetween, h⟩ := bind_eq_ok_iff.mp h
  obtain ⟨hleft, hgoes⟩ := hnext between r' h hoff
  obtain ⟨hstart, hcomes⟩ := hstep r between hbetween hleft
  exact ⟨hstart, bind_eq_ok_iff.mpr ⟨_, hcomes, hgoes⟩⟩

/-- What is waiting is settled first; then something is done with what is settled, and something
else may wait. -/
theorem ignores_settled {step : Given → Except Stop Given}
    {pending : Option (Slot × Option String)}
    (hstep : ∀ g g', step g = .ok g' → g'.isOn s = false →
      g.isOn s = false ∧ step (g.on s) = .ok (g'.on s)) :
    Ignores s fun r => do
      let g ← r.settled
      return ⟨← step g, pending⟩ := by
  intro r r' h hoff
  obtain ⟨g, hg, h⟩ := bind_eq_ok_iff.mp h
  obtain ⟨g', hg', h⟩ := bind_eq_ok_iff.mp h
  cases h
  obtain ⟨hleft, hgoes⟩ := hstep g g' hg' hoff
  refine ⟨by rw [← isOn_of_settled hg, hleft], ?_⟩
  exact bind_eq_ok_iff.mpr ⟨_, settled_on_of_ok hg s, bind_eq_ok_iff.mpr ⟨_, hgoes, rfl⟩⟩

theorem ignores_turnOn (t : Switch) : Ignores s fun r => r.turnOn t :=
  ignores_settled fun _ _ => Given.turnOn_on

theorem ignores_attach (slot : Slot) (value : String) : Ignores s fun r => r.attach slot value := by
  refine ignores_settled fun g g' h hoff => ?_
  rw [Given.settle_on, h]
  exact ⟨by rw [← Given.isOn_of_settle h, hoff], rfl⟩

theorem ignores_await (slot : Slot) (value : Option String) :
    Ignores s fun r => r.await slot value := by
  apply @ignores_settled s Except.ok (some (slot, value))
  intro g g' h hoff
  cases h
  exact ⟨hoff, rfl⟩

theorem Ignores.ite {p : Reading → Prop} [DecidablePred p]
    {step next : Reading → Except Stop Reading} (hp : ∀ r : Reading, p (r.on s) ↔ p r)
    (hstep : Ignores s step) (hnext : Ignores s next) :
    Ignores s fun r => if p r then step r else next r := by
  intro r r' h hoff
  by_cases hr : p r
  · simp only [if_pos hr, if_pos ((hp r).mpr hr)] at h ⊢
    exact hstep r r' h hoff
  · simp only [if_neg hr, if_neg (mt (hp r).mp hr)] at h ⊢
    exact hnext r r' h hoff

theorem on_input (s : Switch) (r : Reading) : (r.on s).given.input = r.given.input := by
  cases s <;> rfl

theorem ignores_positional (value : String) : Ignores s fun r => r.positional value := by
  refine Ignores.ite (fun r => ?_) (ignores_error _) (ignores_await _ _)
  rw [on_input]
  rfl

theorem ignores_long (text : List Char) : Ignores s fun r => r.long text := by
  unfold long
  dsimp only
  split
  · exact ignores_attach _ _
  · exact ignores_await _ _
  · exact ignores_error _
  · exact ignores_turnOn _
  · exact ignores_error _

theorem ignores_short (letters : List Char) : Ignores s fun r => r.short letters := by
  induction letters with
  | nil => exact ignores_ok
  | cons c letters ih =>
    unfold short
    split
    · exact ignores_await _ _
    · exact ignores_attach _ _
    · exact ignores_attach _ _
    · exact (ignores_turnOn _).bind ih
    · exact ignores_error _

/-- The value of an option may come as the next argument. -/
theorem ignores_value (a : String) : Ignores s fun r =>
    match r.pending with
    | some (slot, none) => .ok { r with pending := some (slot, some a) }
    | _ => r.positional a := by
  intro r r' h hoff
  dsimp only at h ⊢
  split at h
  · next slot hslot =>
    cases h
    exact ⟨hoff, by simp only [on, hslot]⟩
  · next hslot =>
    obtain ⟨hstart, hgoes⟩ := ignores_positional a r r' h hoff
    refine ⟨hstart, ?_⟩
    split
    · next slot hslot' => exact absurd hslot' (hslot slot)
    · exact hgoes

theorem ignores_argument (a : String) : Ignores s fun r => r.argument a := by
  unfold argument
  split
  · exact ignores_long _
  · exact ignores_short _
  · exact ignores_value a

theorem ignores_foldlM_positional (args : List String) :
    Ignores s fun r => args.foldlM positional r := by
  induction args with
  | nil => exact ignores_ok
  | cons a args ih =>
    simp only [List.foldlM_cons]
    exact (ignores_positional a).bind ih

theorem ignores_arguments (args : List String) : Ignores s fun r => r.arguments args := by
  induction args with
  | nil => exact ignores_ok
  | cons a args ih =>
    unfold arguments
    split
    · exact ignores_foldlM_positional args
    · exact (ignores_argument a).bind ih

end Reading

/-- The options of a run with a switch on. -/
def on (s : Switch) (o : Options) : Options :=
  match s with
  | .tokens => { o with tokens := true }
  | .print => { o with print := true }
  | .listFormats => { o with listFormats := true }
  | .help | .version => o

def isOn (s : Switch) (o : Options) : Bool :=
  match s with
  | .tokens => o.tokens
  | .print => o.print
  | .listFormats => o.listFormats
  | .help | .version => false

/-- The switches of a run, as they are written. -/
inductive Spelled : String → Switch → Prop
  | tokens : Spelled "--tokens" .tokens
  | print : Spelled "--print" .print
  | listFormats : Spelled "--list-formats" .listFormats

theorem Spelled.argument {text : String} (h : Spelled text s) :
    Reading.argument ⟨.nothing, none⟩ text = .ok (Reading.on s ⟨.nothing, none⟩) := by
  cases h with
  | tokens => rfl
  | print => rfl
  | listFormats => rfl

theorem Spelled.ne_dashes {text : String} (h : Spelled text s) : text ≠ "--" := by
  cases h with
  | tokens => decide
  | print => decide
  | listFormats => decide

/-- A command line that does not turn on a switch is read in the same way behind that switch. -/
theorem ofArguments_cons {text : String} {args : List String} {o : Options} (htext : Spelled text s)
    (h : ofArguments args = .ok o) (hoff : o.isOn s = false) :
    ofArguments (text :: args) = .ok (o.on s) := by
  obtain ⟨r, hr, h⟩ := bind_eq_ok_iff.mp h
  obtain ⟨g, hg, h⟩ := bind_eq_ok_iff.mp h
  by_cases hmissing : (g.input.isNone && !g.listFormats) = true
  · rw [if_pos hmissing] at h
    cases h
  rw [if_neg hmissing] at h
  cases h
  have hgiven : g.isOn s = false := by
    rw [← hoff]
    cases s <;> rfl
  have hreading : r.given.isOn s = false := by rw [← Reading.isOn_of_settled hg, hgiven]
  obtain ⟨-, hgoes⟩ := Reading.ignores_arguments args _ r hr hreading
  have harguments : Reading.arguments ⟨.nothing, none⟩ (text :: args) = .ok (r.on s) := by
    rw [Reading.arguments, if_neg htext.ne_dashes, htext.argument]
    exact hgoes
  have hsettled := Reading.settled_on_of_ok hg s
  -- No switch makes an input needed, and the one for the list of formats makes it needless.
  have hthere : ¬ ((g.on s).input.isNone && !(g.on s).listFormats) = true := by
    cases s <;> simp_all [Given.on]
  refine bind_eq_ok_iff.mpr ⟨_, harguments, bind_eq_ok_iff.mpr ⟨_, hsettled, ?_⟩⟩
  rw [if_neg hthere]
  cases s <;> rfl

end Options
end Jam
