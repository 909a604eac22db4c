import Evaluation.LogInterleaved

namespace Evaluation

open Lib Logging

/-!
# What threads leave in the sinks

Each step of a thread in a `LOG` takes a lock, gives one back, or inserts what is pending; a call
that changes the registry waits until nobody reads it, and then goes to its end by itself.

* `Steady.lockShared` and its siblings — one step of one thread, by the place where it is;
* `Changing` — somebody has the registry for itself, and nobody else goes on;
* `interleaved_underway` — whatever the threads do, they are in one of these states;
* `threads_delivery` — what the sinks hold, whatever the order;
* `threads_not_stuck` — and somebody can always go on.
-/

section

variable {κ : Type} [DecidableEq κ] {g₀ : Logging} {before : List LoggerCall}
  {calls : κ → List LoggerCall} {G : Ghost κ} {t : Threads κ Shared ThreadStep} {k : κ}

/-- The threads have come to `t`, and each sink has been given `hist` and perhaps some more. -/
def Since (g₀ : Logging) (before : List LoggerCall) (calls : κ → List LoggerCall)
    (hist : Bytes → List (κ × LoggerCall)) (t : Threads κ Shared ThreadStep) : Prop :=
  ∃ G, Steady g₀ before calls G t ∧ ∀ name, hist name <+: G.hist name

theorem Since.trans {hist : Bytes → List (κ × LoggerCall)}
    (hhist : ∀ name, hist name <+: G.hist name) (h : Since g₀ before calls G.hist t) :
    Since g₀ before calls hist t := by
  obtain ⟨G', hsteady, hgiven⟩ := h
  exact ⟨G', hsteady, fun name => (hhist name).trans (hgiven name)⟩

/-! ### One thread goes on -/

/-- What one thread does, and what it leaves as it is. -/
theorem Steady.goOn (h : Steady g₀ before calls G t) {G' : Ghost κ} {l : Local} {s' : Shared}
    {code : List ThreadStep} (hloc : G'.loc = Function.update G.loc k l)
    (hcalls : l.done ++ l.rest = (G.loc k).done ++ (G.loc k).rest)
    (hregistry : s'.logging.registry = t.shared.logging.registry)
    (hplace : At t.shared.logging.registry l code) (hlocks : Locks G' s') (hpast : Past G')
    (hwhole : Inserted g₀ before G' s'.logging)
    (hothers : ∀ name, G.writer name ≠ some k → G'.pending name = G.pending name)
    (hpending : ∀ name, l.place.holder = some name → G'.pending name = l.place.pending)
    (hquiet : ∀ name, G'.writer name = none → G.writer name ≠ none → G'.pending name = [])
    (hkeeps : KeepsTo g₀ (s'.logging.ahead G'.pending) fun name =>
      sinkAfter name (before ++ (G'.hist name).map Prod.snd)) :
    Steady g₀ before calls G' (t.goOn k s' code) where
  calls j := by
    rw [hloc]
    rcases eq_or_ne j k with rfl | hne
    · rw [Function.update_self, hcalls, h.calls]
    · rw [Function.update_of_ne hne, h.calls]
  place j := by
    show At s'.logging.registry _ _
    rw [hregistry, hloc]
    rcases eq_or_ne j k with rfl | hne
    · rw [Function.update_self, Threads.goOn_code_self]
      exact hplace
    · rw [Function.update_of_ne hne, Threads.goOn_code_of_ne _ hne]
      exact h.place j
  locks := hlocks
  past := hpast
  whole := hwhole
  pending j name hholder := by
    rw [hloc] at hholder ⊢
    rcases eq_or_ne j k with rfl | hne
    · rw [Function.update_self] at hholder ⊢
      exact hpending name hholder
    · -- What another thread is inserting is not this one's.
      rw [Function.update_of_ne hne] at hholder ⊢
      have hwriter := (h.locks.holder j name).mpr hholder
      rw [hothers name, h.pending j name hholder]
      rw [hwriter, ne_eq, Option.some.injEq]
      exact hne
  quiet name hnone := by
    by_cases hbefore : G.writer name = none
    · rw [hothers name (by rw [hbefore]; exact nofun), h.quiet name hbefore]
    · exact hquiet name hnone hbefore
  keeps := hkeeps

/-- It begins and ends no turn of a worker, and nothing is inserted. -/
theorem Steady.goOn_same (h : Steady g₀ before calls G t) {G' : Ghost κ} {l : Local} {s' : Shared}
    {code : List ThreadStep} (hloc : G'.loc = Function.update G.loc k l)
    (hcalls : l.done ++ l.rest = (G.loc k).done ++ (G.loc k).rest)
    (hregistry : s'.logging.registry = t.shared.logging.registry)
    (hplace : At t.shared.logging.registry l code) (hlocks : Locks G' s') (hpast : Past G')
    (hwhole : Inserted g₀ before G' s'.logging) (hwriter : G'.writer = G.writer)
    (hsame : G'.pending = G.pending)
    (hpending : ∀ name, l.place.holder = some name → G.pending name = l.place.pending)
    (hkeeps : KeepsTo g₀ (s'.logging.ahead G'.pending) fun name =>
      sinkAfter name (before ++ (G'.hist name).map Prod.snd)) :
    Steady g₀ before calls G' (t.goOn k s' code) := by
  refine h.goOn hloc hcalls hregistry hplace hlocks hpast hwhole ?_ ?_ ?_ hkeeps
  · exact fun name _ => congrFun hsame name
  · exact fun name hholder => (congrFun hsame name).trans (hpending name hholder)
  · exact fun name hnone hsome => absurd (hwriter ▸ hnone) hsome

section

variable {done rest : List LoggerCall} {call : LoggerCall} {level : LogLevel} {msg name : Bytes}
  {names : List Bytes}

omit [DecidableEq κ] in
/-- The sinks, when some of them are given a message. -/
theorem sinks_give (hcall : call.toWorkers = .log level msg) (k : κ)
    (hist : Bytes → List (κ × LoggerCall)) (given : Bytes → Prop) [DecidablePred given] :
    (fun name => sinkAfter name (before ++
        (if given name then hist name ++ [(k, call)] else hist name).map Prod.snd))
      = fun name =>
        if given name then
          (sinkAfter name (before ++ (hist name).map Prod.snd)).step name (.log level msg)
        else sinkAfter name (before ++ (hist name).map Prod.snd) := by
  funext name
  split
  · rw [List.map_append, ← hcall]
    exact sinkAfter_append_concat ..
  · rfl

omit [DecidableEq κ] in
/-- Giving a sink a call leaves what it has been given in front. -/
theorem prefix_give (k : κ) (call : LoggerCall) (hist : Bytes → List (κ × LoggerCall))
    (given : Bytes → Prop) [DecidablePred given] (name : Bytes) :
    hist name <+: if given name then hist name ++ [(k, call)] else hist name := by
  split
  · exact List.prefix_append ..
  · exact List.prefix_rfl

omit [DecidableEq κ] in
/-- It is nothing to those that do not write it. -/
theorem keeps_silent {g : Logging} {hist : Bytes → List (κ × LoggerCall)}
    (h : KeepsTo g₀ g fun name => sinkAfter name (before ++ (hist name).map Prod.snd))
    (hcall : call.toWorkers = .log level msg) (k : κ) (given : Bytes → Prop) [DecidablePred given]
    (hsilent : ∀ name, given name → ∀ inForce, g.registry.lookup name = some inForce →
      inForce.toNat < level.toNat) :
    KeepsTo g₀ g fun name => sinkAfter name (before ++
      (if given name then hist name ++ [(k, call)] else hist name).map Prod.snd) := by
  rw [sinks_give hcall]
  exact h.silent hsilent msg

/-- The registry is taken as a reader. -/
theorem Steady.lockShared (h : Steady g₀ before calls G t)
    (hloc : G.loc k = ⟨done, call :: rest, .between⟩) (hcall : call.toWorkers = .log level msg) :
    Since g₀ before calls G.hist (t.goOn k (t.shared.takeShared .thread)
      (.step (.eachWorker level msg) :: .step .unlockShared :: threadCode rest)) := by
  have hbetween : (G.loc k).place = .between := by rw [hloc]
  exact ⟨_, h.goOn_same rfl (by rw [hloc]) rfl (.reading hcall) (h.locks.lockShared hbetween rfl)
    (h.past.same (by rw [hloc]) (fun _ => by rw [hloc]; rfl) rfl rfl rfl)
    (h.whole.same rfl rfl fun _ => List.prefix_rfl) rfl rfl nofun (h.keeps.of_same rfl rfl rfl),
    fun _ => List.prefix_rfl⟩

/-- The workers are known; whoever is not among them has nothing to do. -/
theorem Steady.eachWorker (h : Steady g₀ before calls G t)
    (hloc : G.loc k = ⟨done, call :: rest, .reading⟩) (hcall : call.toWorkers = .log level msg) :
    Since g₀ before calls G.hist (t.goOn k t.shared
      (workersCode level msg (t.shared.logging.workers.map Prod.fst)
        ++ .step .unlockShared :: threadCode rest)) := by
  have hnodup : (t.shared.logging.workers.map Prod.fst).Nodup := h.keeps.nodup
  have hsubset : t.shared.logging.workers.map Prod.fst ⊆ t.shared.logging.registry.map Prod.fst :=
    fun _ hmem => (registry_names _).symm ▸ hmem
  -- A sink with no worker takes in the call by not getting anything.
  have hunregistered : ∀ name ∉ t.shared.logging.workers.map Prod.fst, ∀ inForce,
      (t.shared.logging.ahead G.pending).registry.lookup name = some inForce →
        inForce.toNat < level.toNat := by
    intro name hname inForce hlookup
    rw [registry_lookup] at hlookup
    obtain ⟨worker, hworker, -⟩ := Option.map_eq_some_iff.mp hlookup
    exact absurd hworker (by simp [ahead, lookup_eq_none_iff_names.mpr hname])
  have hquiet : ∀ name ∉ t.shared.logging.workers.map Prod.fst, G.pending name = [] :=
    fun name hname => h.quiet name (h.locks.writer_eq_none (held_of_not_mem hname))
  generalize t.shared.logging.workers.map Prod.fst = names
    at hnodup hsubset hunregistered hquiet
  -- All these have been given the call; the others still owe it.
  refine ⟨{ G with
      loc := Function.update G.loc k ⟨done, call :: rest, .writing names⟩
      hist := fun name => if name ∉ names then G.hist name ++ [(k, call)] else G.hist name
      whole := fun name => if name ∉ names then G.hist name else G.whole name },
    h.goOn_same rfl (by rw [hloc]) rfl (.writing hcall hsubset hnodup)
    (h.locks.same rfl rfl rfl (by rw [hloc]; simp) (by rw [hloc]; rfl) rfl fun _ => rfl)
    (h.past.give (by rw [hloc]) (changes_eq_false hcall) (fun _ _ => by rw [hloc]; rfl)
      (fun name => ?_) rfl rfl rfl) (h.whole.give h.keeps hquiet rfl rfl rfl) rfl rfl nofun
    (keeps_silent h.keeps hcall k _ hunregistered), prefix_give k call G.hist _⟩
  simp [Local.latest, Place.owed, hloc]

/-- Every worker has had its turn. -/
theorem Steady.unlockShared (h : Steady g₀ before calls G t)
    (hloc : G.loc k = ⟨done, call :: rest, .writing []⟩) :
    Since g₀ before calls G.hist (t.goOn k (t.shared.releaseShared .thread)
      (threadCode rest)) := by
  have hwriting : (G.loc k).place = .writing [] := by rw [hloc]
  exact ⟨{ G with
      loc := Function.update G.loc k ⟨done ++ [call], rest, .between⟩
      readers := G.readers.erase k
      common := Function.update G.common k (G.common k ++ [(k, call)]) },
    h.goOn_same rfl (by rw [hloc]; simp) rfl .between (h.locks.unlockShared hwriting rfl)
    (h.past.finish (by rw [hloc]) (fun _ => by rw [hloc]; rfl) (fun _ => rfl) rfl rfl rfl)
    (h.whole.same rfl rfl fun _ => List.prefix_rfl) rfl rfl nofun (h.keeps.of_same rfl rfl rfl),
    fun _ => List.prefix_rfl⟩

/-- A worker begins its turn. -/
theorem Steady.lockWorker (h : Steady g₀ before calls G t)
    (hloc : G.loc k = ⟨done, call :: rest, .writing (name :: names)⟩)
    (hcall : call.toWorkers = .log level msg)
    (hnames : name :: names ⊆ t.shared.logging.registry.map Prod.fst)
    (hnodup : (name :: names).Nodup) (hfree : t.shared.held name = false) :
    Since g₀ before calls G.hist (t.goOn k
      (t.shared.onLogging (·.setHolder name (some .thread)))
      (.step (.logTo name level msg) :: .step (.unlockWorker name)
        :: (workersCode level msg names ++ .step .unlockShared :: threadCode rest))) := by
  have hwriting : (G.loc k).place = .writing (name :: names) := by rw [hloc]
  have hname : name ∈ t.shared.logging.workers.map Prod.fst := by
    rw [← registry_names]
    exact hnames List.mem_cons_self
  -- The mutex is free, so nobody writes, and nothing is pending.
  have hnone := h.locks.writer_eq_none hfree
  refine ⟨{ G with
      loc := Function.update G.loc k ⟨done, call :: rest, .turn name .check names⟩
      writer := Function.update G.writer name (some k) },
    h.goOn rfl (by rw [hloc]) (registry_setHolder ..) (.turn hcall hnames hnodup nofun)
    (h.locks.lockWorker hname hfree hwriting rfl)
    (h.past.same (by rw [hloc]) (fun _ => by rw [hloc]; rfl) rfl rfl rfl)
    (h.whole.same rfl rfl fun _ => List.prefix_rfl) (fun _ _ => rfl) ?_
    (fun other hnone' hsome => ?_) (h.keeps.of_same (registry_setHolder ..) rfl rfl),
    fun _ => List.prefix_rfl⟩
  · rintro _ ⟨⟩
    exact h.quiet name hnone
  · rcases eq_or_ne other name with rfl | hne
    · exact absurd hnone hsome
    · exact absurd ((Function.update_of_ne hne ..).symm.trans hnone') hsome

/-- What a thread has still to insert is pending for the sink whose turn it is. -/
theorem Steady.pending_turn {turn : Turn} {rest : List LoggerCall}
    (h : Steady g₀ before calls G t) (hloc : G.loc k = ⟨done, rest, .turn name turn names⟩) :
    G.pending name = (Place.turn name turn names).pending := by
  rw [h.pending k name (by rw [hloc]; rfl), hloc]

omit [DecidableEq κ] in
/-- The sink whose turn comes gets the call of the thread. -/
theorem latest_turn {turn : Turn} {texts : List Bytes} (hnew : name ∉ names)
    (howed : (Place.turn name turn names).owed = some (name :: names)) (other : Bytes) :
    Local.latest ⟨done, call :: rest, .turn name (.write texts) names⟩ other
      = if other = name then [call]
        else Local.latest ⟨done, call :: rest, .turn name turn names⟩ other := by
  unfold Local.latest
  rw [howed]
  rcases eq_or_ne other name with rfl | hne
  · simp [Place.owed, hnew]
  · simp [Place.owed, hne]

/-- A worker compares the levels. -/
theorem Steady.check {inForce : LogLevel} (h : Steady g₀ before calls G t)
    (hloc : G.loc k = ⟨done, call :: rest, .turn name .check names⟩)
    (hcall : call.toWorkers = .log level msg)
    (hnames : name :: names ⊆ t.shared.logging.registry.map Prod.fst)
    (hnodup : (name :: names).Nodup) (hle : level.toNat ≤ inForce.toNat)
    (hlookup : t.shared.logging.registry.lookup name = some inForce) :
    Since g₀ before calls G.hist (t.goOn k t.shared
      (.readTime name :: ((messageTexts name level msg).map (.write name)
        ++ .step (.unlockWorker name)
          :: (workersCode level msg names ++ .step .unlockShared :: threadCode rest)))) := by
  have hpending := h.pending_turn hloc
  -- The level lets the message through; the sink is given the call only with the stamp.
  refine ⟨{ G with loc := Function.update G.loc k ⟨done, call :: rest, .turn name .stamp names⟩ },
    h.goOn_same rfl (by rw [hloc]) rfl (.turn hcall hnames hnodup fun _ => ⟨inForce, hlookup, hle⟩)
    (h.locks.same rfl rfl rfl (by rw [hloc]; simp) (by rw [hloc]; rfl) rfl fun _ => rfl)
    (h.past.same (by rw [hloc]) (fun _ => by rw [hloc]; rfl) rfl rfl rfl)
    (h.whole.same rfl rfl fun _ => List.prefix_rfl) rfl rfl ?_ h.keeps, fun _ => List.prefix_rfl⟩
  rintro _ ⟨⟩
  exact hpending

/-- A worker whose level is below that of the message has nothing to do. -/
theorem Steady.checkSilent (h : Steady g₀ before calls G t)
    (hloc : G.loc k = ⟨done, call :: rest, .turn name .check names⟩)
    (hcall : call.toWorkers = .log level msg)
    (hnames : name :: names ⊆ t.shared.logging.registry.map Prod.fst)
    (hnodup : (name :: names).Nodup)
    (hsilent : ∀ inForce, t.shared.logging.registry.lookup name = some inForce →
      inForce.toNat < level.toNat) :
    Since g₀ before calls G.hist (t.goOn k t.shared (.step (.unlockWorker name)
      :: (workersCode level msg names ++ .step .unlockShared :: threadCode rest))) := by
  have hpending := h.pending_turn hloc
  have hquiet : ∀ other, other = name → G.pending other = [] := fun _ hother => hother ▸ hpending
  have hkeeps := keeps_silent h.keeps hcall k (fun other => other = name)
    (fun other hother => hother ▸ hsilent)
  -- The sink is given the call, and there is nothing to insert.
  refine ⟨{ G with
      loc := Function.update G.loc k ⟨done, call :: rest, .turn name (.write []) names⟩
      hist := fun other => if other = name then G.hist other ++ [(k, call)] else G.hist other
      whole := fun other => if other = name then G.hist other else G.whole other },
    h.goOn_same rfl (by rw [hloc]) rfl (.turn hcall hnames hnodup nofun)
    (h.locks.same rfl rfl rfl (by rw [hloc]; simp) (by rw [hloc]; rfl) rfl fun _ => rfl)
    (h.past.give (by rw [hloc]) (changes_eq_false hcall) (fun other hother => ?_) (fun other => ?_)
      rfl rfl rfl) (h.whole.give h.keeps hquiet rfl rfl rfl)
    rfl rfl ?_ hkeeps, prefix_give k call G.hist _⟩
  · simp [Local.latest, Place.owed, hloc, hother]
  · rw [hloc]
    exact latest_turn (List.nodup_cons.mp hnodup).1 rfl other
  · rintro _ ⟨⟩
    exact hpending

/-- It looks at the clock, and knows what it is to insert. -/
theorem Steady.stamp {inForce : LogLevel} (h : Steady g₀ before calls G t)
    (hloc : G.loc k = ⟨done, call :: rest, .turn name .stamp names⟩)
    (hcall : call.toWorkers = .log level msg)
    (hnames : name :: names ⊆ t.shared.logging.registry.map Prod.fst)
    (hnodup : (name :: names).Nodup) (hle : level.toNat ≤ inForce.toNat)
    (hlookup : t.shared.logging.registry.lookup name = some inForce) :
    Since g₀ before calls G.hist (t.goOn k
      (t.shared.onLogging fun g => { g with clock := g.clock.tail })
      (.write name (t.shared.logging.clock.headD []) :: .write name (bytes " | ")
        :: ((messageTexts name level msg).map (.write name) ++ .step (.unlockWorker name)
          :: (workersCode level msg names ++ .step .unlockShared :: threadCode rest)))) := by
  have hpending := h.pending_turn hloc
  have hquiet : ∀ other, other = name → G.pending other = [] := fun _ hother => hother ▸ hpending
  have hwriter := (h.locks.holder k name).mpr (by rw [hloc]; rfl)
  obtain ⟨worker, hworker, rfl⟩ := Option.map_eq_some_iff.mp
    ((registry_lookup ..).symm.trans hlookup)
  -- From here on the whole entry is pending: the time has been looked up.
  let texts := t.shared.logging.clock.headD [] :: bytes " | " :: messageTexts name level msg
  have hkeeps := h.keeps.logTo name level msg
  rw [← sinks_give hcall k G.hist (fun other => other = name),
    ← ahead_logTo hpending hworker hle msg] at hkeeps
  -- The sink is given the call now.
  refine ⟨{ G with
      loc := Function.update G.loc k ⟨done, call :: rest, .turn name (.write texts) names⟩
      hist := fun other => if other = name then G.hist other ++ [(k, call)] else G.hist other
      whole := fun other => if other = name then G.hist other else G.whole other
      pending := Function.update G.pending name texts.flatten },
    h.goOn rfl (by rw [hloc]) rfl (.turn hcall hnames hnodup nofun)
    (h.locks.same rfl rfl rfl (by rw [hloc]; simp) (by rw [hloc]; rfl) rfl fun _ => rfl)
    (h.past.give (by rw [hloc]) (changes_eq_false hcall) (fun other hother => ?_) (fun other => ?_)
      rfl rfl rfl) (h.whole.give h.keeps hquiet rfl rfl rfl)
    (fun other hother => ?_) ?_ (fun _ hnone hsome => absurd hnone hsome) hkeeps,
    prefix_give k call G.hist _⟩
  · simp [Local.latest, Place.owed, hloc, hother]
  · rw [hloc]
    exact latest_turn (List.nodup_cons.mp hnodup).1 rfl other
  · refine Function.update_of_ne ?_ ..
    rintro rfl
    exact hother hwriter
  · rintro _ ⟨⟩
    exact Function.update_self ..

/-- An insertion. -/
theorem Steady.write {text : Bytes} {texts : List Bytes} (h : Steady g₀ before calls G t)
    (hloc : G.loc k = ⟨done, call :: rest, .turn name (.write (text :: texts)) names⟩)
    (hcall : call.toWorkers = .log level msg)
    (hnames : name :: names ⊆ t.shared.logging.registry.map Prod.fst)
    (hnodup : (name :: names).Nodup) :
    Since g₀ before calls G.hist (t.goOn k (t.shared.onLogging (·.write name text))
      (texts.map (.write name) ++ .step (.unlockWorker name)
        :: (workersCode level msg names ++ .step .unlockShared :: threadCode rest))) := by
  have hpending : G.pending name = text ++ texts.flatten := h.pending_turn hloc
  have hwriter := (h.locks.holder k name).mpr (by rw [hloc]; rfl)
  have hkeeps := h.keeps
  rw [← ahead_write hpending] at hkeeps
  -- What has been inserted is no longer pending.
  refine ⟨{ G with
      loc := Function.update G.loc k ⟨done, call :: rest, .turn name (.write texts) names⟩
      pending := Function.update G.pending name texts.flatten },
    h.goOn rfl (by rw [hloc]) rfl (.turn hcall hnames hnodup nofun)
    (h.locks.same rfl rfl rfl (by rw [hloc]; simp) (by rw [hloc]; rfl) rfl fun _ => rfl)
    (h.past.same (by rw [hloc]) (fun _ => by rw [hloc]; rfl) rfl rfl rfl)
    (h.whole.same rfl rfl fun other => outputs_prefix_write ..) (fun other hother => ?_) ?_
    (fun _ hnone hsome => absurd hnone hsome) hkeeps, fun _ => List.prefix_rfl⟩
  · refine Function.update_of_ne ?_ ..
    rintro rfl
    exact hother hwriter
  · rintro _ ⟨⟩
    exact Function.update_self ..

/-- A worker ends its turn. -/
theorem Steady.unlockWorker (h : Steady g₀ before calls G t)
    (hloc : G.loc k = ⟨done, call :: rest, .turn name (.write []) names⟩)
    (hcall : call.toWorkers = .log level msg)
    (hnames : name :: names ⊆ t.shared.logging.registry.map Prod.fst)
    (hnodup : (name :: names).Nodup) :
    Since g₀ before calls G.hist (t.goOn k (t.shared.onLogging (·.setHolder name none))
      (workersCode level msg names ++ .step .unlockShared :: threadCode rest)) := by
  have hpending : G.pending name = [] := h.pending_turn hloc
  have hturn : (G.loc k).place = .turn name (.write []) names := by rw [hloc]
  refine ⟨{ G with
      loc := Function.update G.loc k ⟨done, call :: rest, .writing names⟩
      writer := Function.update G.writer name none },
    h.goOn rfl (by rw [hloc]) (registry_setHolder ..)
    (.writing hcall (List.cons_subset.mp hnames).2 hnodup.of_cons) (h.locks.unlockWorker hturn rfl)
    (h.past.same (by rw [hloc]) (fun _ => by rw [hloc]; rfl) rfl rfl rfl)
    (h.whole.same rfl rfl fun _ => List.prefix_rfl) (fun _ _ => rfl) nofun
    (fun other hnone hsome => ?_) (h.keeps.of_same (registry_setHolder ..) rfl rfl),
    fun _ => List.prefix_rfl⟩
  -- The last text has been inserted, so nothing is pending behind the mutex.
  rcases eq_or_ne other name with rfl | hne
  · exact hpending
  · exact absurd ((Function.update_of_ne hne ..).symm.trans hnone) hsome

/-! ### The registry is changed -/

/-- Between two calls a thread has the code of the calls that are left, whatever the registry. -/
theorem At.of_between {registry : List (Bytes × LogLevel)} {l : Local} {code : List ThreadStep}
    (h : At registry l code) (hplace : l.place = .between) :
    code = threadCode l.rest ∧ ∀ registry', At registry' l code := by
  cases h with
  | between => exact ⟨rfl, fun _ => .between⟩
  | _ => cases hplace

/-- With nothing pending everything has been inserted. -/
theorem ahead_self {g : Logging} {pending : Bytes → Bytes} (h : ∀ name, pending name = []) :
    g.ahead pending = g := by
  simp [ahead, h]

/-- Nobody is in a `LOG` while the registry has no reader. -/
theorem Steady.all_between (h : Steady g₀ before calls G t)
    (hreaders : t.shared.logging.mutex.readers = []) (j : κ) : (G.loc j).place = .between := by
  have hnil : G.readers = [] := by
    have hcount := congrArg List.length (h.locks.readers.symm.trans hreaders)
    simpa using hcount
  by_contra hplace
  have hmem := (h.locks.reading j).mpr hplace
  rw [hnil] at hmem
  cases hmem

/-- Between calls nobody writes. -/
theorem Steady.writer_eq_none (h : Steady g₀ before calls G t)
    (hbetween : ∀ j, (G.loc j).place = .between) (name : Bytes) : G.writer name = none := by
  cases hwriter : G.writer name with
  | none => rfl
  | some j =>
    have hholder := (h.locks.holder j name).mp hwriter
    rw [hbetween] at hholder
    cases hholder

/-- Then no lock is held. -/
theorem Steady.interruptible (h : Steady g₀ before calls G t)
    (hbetween : ∀ j, (G.loc j).place = .between) : Interruptible t.shared where
  registry := h.locks.free
  workers e he := by
    have hheld := h.locks.held e.1
    rw [h.writer_eq_none hbetween] at hheld
    have hfree := List.any_eq_false.mp hheld e he
    simpa using hfree

/-- A call that changes the registry, from its beginning to its end. -/
theorem Steady.change (h : Steady g₀ before calls G t)
    (hloc : G.loc k = ⟨done, call :: rest, .between⟩) (hcall : call.changes = true)
    (hreaders : t.shared.logging.mutex.readers = []) :
    Since g₀ before calls G.hist (t.goOn k (t.shared.onLogging call.toWorkers.run)
      (threadCode rest)) := by
  -- Nobody reads, so all threads are between two calls and nothing is pending.
  have hbetween := h.all_between hreaders
  have hfree := h.interruptible hbetween
  have hquiet : ∀ name, G.pending name = [] := fun name =>
    h.quiet name (h.writer_eq_none hbetween name)
  obtain ⟨hfree', hmutex⟩ := hfree.run call.toWorkers
  let l : Local := ⟨done ++ [call], rest, .between⟩
  have hbetween' : ∀ j, (Function.update G.loc k l j).place = .between := by
    intro j
    rcases eq_or_ne j k with rfl | hne
    · rw [Function.update_self]
    · rw [Function.update_of_ne hne, hbetween]
  have hkeeps := h.keeps
  rw [ahead_self hquiet] at hkeeps
  have hkeeps' : KeepsTo g₀ (call.toWorkers.run t.shared.logging) fun name =>
      sinkAfter name (before ++ (G.hist name ++ [(k, call)]).map Prod.snd) := by
    simp only [List.map_append, List.map_cons, List.map_nil, sinkAfter_append_concat]
    exact hkeeps.run call.toWorkers
  refine ⟨{ G with
    loc := Function.update G.loc k l
    hist := fun name => G.hist name ++ [(k, call)]
    whole := fun name => G.hist name ++ [(k, call)]
    common := fun j => G.common j ++ [(k, call)] },
    ⟨?calls, ?place, ?locks, ?past, ?whole, ?pending, ?quiet, ?keeps⟩,
    fun _ => List.prefix_append ..⟩
  case calls =>
    intro j
    rcases eq_or_ne j k with rfl | hne
    · rw [h.calls, hloc]
      simp [l]
    · simp [hne, h.calls]
  case place =>
    intro j
    rcases eq_or_ne j k with rfl | hne
    · rw [Threads.goOn_code_self]
      simpa using .between
    · rw [Threads.goOn_code_of_ne _ hne]
      simpa [hne] using ((h.place j).of_between (hbetween j)).2 _
  case locks =>
    refine h.locks.same rfl rfl rfl (by simp [l, hloc]) (by simp [l, hloc]) hmutex fun name => ?_
    rw [held_eq_false hfree]
    exact held_eq_false hfree' name
  case past =>
    refine h.past.change (by simp [l, hloc]) hcall (fun j name => ?_) (fun _ => rfl) rfl rfl rfl
    unfold Local.latest
    rw [hbetween]
    rfl
  case whole =>
    refine ⟨fun name => ?_, fun _ => .inl rfl⟩
    obtain ⟨text, houtput, hwritten⟩ := (hkeeps'.sink name).written
    exact ⟨text, houtput ▸ List.prefix_rfl, hwritten⟩
  case pending =>
    intro j name hholder
    rw [hbetween'] at hholder
    cases hholder
  case quiet => exact fun name _ => hquiet name
  case keeps =>
    show KeepsTo g₀ ((call.toWorkers.run t.shared.logging).ahead G.pending) _
    rw [ahead_self hquiet]
    exact hkeeps'

end

/-- The steps behind the exclusive lock. -/
def ThreadStep.Inner : ThreadStep → Bool
  | .step i => i.Inner
  | _ => true

/-- Inserting into a stream touches no lock. -/
theorem inner_writes {g : Logging} {i : LogStep} {new : List ThreadStep}
    (h : i.writes g = some new) : ∀ j ∈ new, j.Inner = true := by
  unfold LogStep.writes at h
  -- Whatever a write leaves to be done is part of the same insertion.
  split at h
  · split at h
    · cases h
      simp
    · split at h
      · cases h
        simp
      · cases h
        simp [ThreadStep.Inner]
  · cases h
    simp [ThreadStep.Inner]
  · split at h
    · cases h
      simp
    · cases h
      simp [ThreadStep.Inner]
  · cases h

/-- They leave the mutex of the registry alone, one insertion after the other. -/
theorem execThreadStep_inner {i : ThreadStep} {new : List ThreadStep} {s s' : Shared}
    (hi : i.Inner = true) (h : execThreadStep i s = some (new, s')) :
    s'.logging.mutex = s.logging.mutex ∧ ∀ j ∈ new, j.Inner = true := by
  cases i with
  | step i =>
    cases hwrites : i.writes s.logging with
    | some texts =>
      cases (exec_writes hwrites).symm.trans h
      exact ⟨rfl, inner_writes hwrites⟩
    | none =>
      simp only [execThreadStep, hwrites, Option.map_eq_some_iff] at h
      -- Any other step of the logger: the machine of one thread says what it does.
      obtain ⟨⟨new', s''⟩, hexec, heq⟩ := h
      obtain ⟨rfl, rfl⟩ := Prod.mk.inj heq
      obtain ⟨hmutex, hnew⟩ := exec_inner hi hexec
      exact ⟨hmutex, List.forall_mem_map.mpr hnew⟩
  | readTime name =>
    cases h
    exact ⟨rfl, by simp [ThreadStep.Inner]⟩
  | write name text =>
    cases h
    exact ⟨rfl, by simp⟩
  | storeLevel name level =>
    cases h
    exact ⟨rfl, by simp⟩

/-- **Somebody has the registry for itself**, and comes to its end; everybody else is between two
    calls. -/
structure Changing (g₀ : Logging) (before : List LoggerCall) (calls : κ → List LoggerCall)
    (hist : Bytes → List (κ × LoggerCall)) (k : κ) (t : Threads κ Shared ThreadStep) : Prop where
  owner : t.shared.logging.mutex.owner ≠ none
  others : ∀ j ≠ k, ∃ rest, t.code j = threadCode rest
  ends : ∃ inner rest s', t.code k = inner ++ .step .unlock :: threadCode rest ∧
    (∀ i ∈ inner, ThreadStep.Inner i = true) ∧
    threadMachine.Completes .thread t.shared (inner ++ [.step .unlock]) s' ∧
    Since g₀ before calls hist (t.goOn k s' (threadCode rest))

/-- Wherever the threads are. -/
def Underway (g₀ : Logging) (before : List LoggerCall) (calls : κ → List LoggerCall)
    (hist : Bytes → List (κ × LoggerCall)) (t : Threads κ Shared ThreadStep) : Prop :=
  Since g₀ before calls hist t ∨ ∃ k, Changing g₀ before calls hist k t

theorem threadCode_cons (call : LoggerCall) (rest : List LoggerCall) :
    threadCode (call :: rest) = call.toWorkers.code.map .step ++ threadCode rest := by
  simp [threadCode, codeOf]

/-- How a call begins. -/
theorem threadCode_cases (call : LoggerCall) (rest : List LoggerCall) :
    (∃ level msg, call.toWorkers = .log level msg ∧ threadCode (call :: rest)
      = .step .lockShared :: .step (.eachWorker level msg) :: .step .unlockShared
        :: threadCode rest) ∨
    ∃ inner, call.changes = true ∧ (∀ i ∈ inner, ThreadStep.Inner i = true) ∧
      call.toWorkers.code.map .step = .step .lock :: (inner ++ [.step .unlock]) ∧
      threadCode (call :: rest) = .step .lock :: (inner ++ .step .unlock :: threadCode rest) := by
  -- A LOG takes the lock in shared mode, every other call takes it for itself.
  rw [threadCode_cons]
  obtain ⟨level, msg, hcall⟩ | ⟨inner, hinner, hlocked⟩ := call.toWorkers.code_cases
  · exact .inl ⟨level, msg, hcall, by rw [hcall]; rfl⟩
  · refine .inr ⟨inner.map .step, ?_, List.forall_mem_map.mpr hinner, ?_, ?_⟩
    · unfold LoggerCall.changes
      split
      · rename_i level msg hcall
        rw [hcall] at hlocked
        cases hlocked
      · rfl
    · simp [hlocked]
    · simp [hlocked]

/-- The exclusive lock is given where nobody reads. -/
theorem exec_lock {s s' : Shared} {new : List ThreadStep}
    (h : execThreadStep (.step .lock) s = some (new, s')) :
    new = [] ∧ s.logging.mutex.readers = [] ∧ s'.logging.mutex.owner ≠ none := by
  have hlock : execThreadStep (.step .lock) s
      = if s.logging.mutex.owner.isSome ∨ s.logging.mutex.readers ≠ [] then none
        else some ([], s.setMutex { s.logging.mutex with owner := some .thread }) := by
    show Option.map _ (if _ then _ else _) = _
    split <;> rfl
  rw [hlock] at h
  split at h
  · cases h
  · rename_i hfree
    cases h
    exact ⟨rfl, not_not.mp (not_or.mp hfree).2, nofun⟩

/-- A thread that comes to a call waits for the owner. -/
theorem exec_of_owner {s : Shared} (howner : s.logging.mutex.owner ≠ none) {i : ThreadStep}
    {code : List ThreadStep} {rest : List LoggerCall} (hcode : threadCode rest = i :: code) :
    execThreadStep i s = none := by
  have hsome := Option.isSome_iff_ne_none.mpr howner
  cases rest with
  | nil => cases hcode
  | cons call rest =>
    obtain ⟨level, msg, -, hbegin⟩ | ⟨inner, -, -, -, hbegin⟩ := threadCode_cases call rest
    · cases hbegin.symm.trans hcode
      show Option.map _ (if _ then _ else _) = _
      rw [if_pos hsome]
      rfl
    · cases hbegin.symm.trans hcode
      show Option.map _ (if _ then _ else _) = _
      rw [if_pos (.inl hsome)]
      rfl

/-! ### Every step -/

section

variable {i : ThreadStep} {new code : List ThreadStep} {s' : Shared}

/-- A thread begins a call. -/
theorem steady_step_between {done rest : List LoggerCall} (h : Steady g₀ before calls G t)
    (hloc : G.loc k = ⟨done, rest, .between⟩) (hcode : threadCode rest = i :: code)
    (hexec : execThreadStep i t.shared = some (new, s')) :
    Underway g₀ before calls G.hist (t.goOn k s' (new ++ code)) := by
  cases rest with
  | nil => cases hcode
  | cons call rest =>
    obtain ⟨level, msg, hcall, hbegin⟩ | ⟨inner, hchanges, hinner, hlocked, hbegin⟩ :=
      threadCode_cases call rest
    · -- A LOG begins with the shared lock.
      cases hbegin.symm.trans hcode
      have hlock := @exec_plain t.shared .lockShared _ _ rfl (exec_lockShared h.locks.free .thread)
      cases hlock.symm.trans hexec
      exact .inl (h.lockShared hloc hcall)
    · cases hbegin.symm.trans hcode
      -- A change of the registry: from here on all that it does is its own, up to its unlock.
      obtain ⟨rfl, hreaders, howner⟩ := exec_lock hexec
      have hbetween := h.all_between hreaders
      have hend := h.change hloc hchanges hreaders
      have hrun := completes_of_logger
        (LogCall.completes .thread call.toWorkers (h.interruptible hbetween) hreaders)
      rw [hlocked] at hrun
      refine .inr ⟨k, howner, fun j hne => ?_, inner, rest, _, ?_, hinner, hrun.tail hexec, ?_⟩
      · rw [Threads.goOn_code_of_ne _ hne]
        exact ⟨_, ((h.place j).of_between (hbetween j)).1⟩
      · exact Threads.goOn_code_self ..
      · rwa [Threads.goOn_goOn]

/-- A thread in a `LOG`, with some workers to come. -/
theorem steady_step_writing {done rest : List LoggerCall} {call : LoggerCall} {level : LogLevel}
    {msg : Bytes} {names : List Bytes} (h : Steady g₀ before calls G t)
    (hloc : G.loc k = ⟨done, call :: rest, .writing names⟩)
    (hcall : call.toWorkers = .log level msg)
    (hnames : names ⊆ t.shared.logging.registry.map Prod.fst) (hnodup : names.Nodup)
    (hcode : workersCode level msg names ++ .step .unlockShared :: threadCode rest = i :: code)
    (hexec : execThreadStep i t.shared = some (new, s')) :
    Since g₀ before calls G.hist (t.goOn k s' (new ++ code)) := by
  cases names with
  | nil =>
    cases hcode
    cases hexec
    exact h.unlockShared hloc
  | cons name names =>
    cases hcode
    cases hheld : t.shared.held name with
    | true =>
      -- The mutex is held, so the step cannot have been taken.
      have hwait : execThreadStep (.step (.lockWorker name)) t.shared = none := by
        show Option.map _ (if _ then _ else _) = _
        rw [if_pos hheld]
        rfl
      cases hwait.symm.trans hexec
    | false =>
      have hlock := @exec_plain t.shared (.lockWorker name) _ _ rfl (exec_lockWorker hheld .thread)
      cases hlock.symm.trans hexec
      exact h.lockWorker hloc hcall hnames hnodup hheld

/-- A worker in its turn. -/
theorem steady_step_turn {done rest : List LoggerCall} {call : LoggerCall} {level : LogLevel}
    {msg name : Bytes} {turn : Turn} {names : List Bytes} (h : Steady g₀ before calls G t)
    (hloc : G.loc k = ⟨done, call :: rest, .turn name turn names⟩)
    (hcall : call.toWorkers = .log level msg)
    (hnames : name :: names ⊆ t.shared.logging.registry.map Prod.fst)
    (hnodup : (name :: names).Nodup)
    (hstamp : turn = .stamp → ∃ inForce, t.shared.logging.registry.lookup name = some inForce ∧
      level.toNat ≤ inForce.toNat)
    (hcode : turn.code level msg name ++ .step (.unlockWorker name)
      :: (workersCode level msg names ++ .step .unlockShared :: threadCode rest) = i :: code)
    (hexec : execThreadStep i t.shared = some (new, s')) :
    Since g₀ before calls G.hist (t.goOn k s' (new ++ code)) := by
  -- A turn checks the level, takes the stamp and writes the texts one by one.
  cases turn with
  | check =>
    cases hcode
    by_cases henabled : ∃ worker, t.shared.logging.workers.lookup name = some worker ∧
        level.toNat ≤ worker.level.toNat
    · -- The level lets the message through, and the stamp is next,
      obtain ⟨worker, hlookup, hle⟩ := henabled
      cases (exec_writes (writes_logTo hlookup hle msg)).symm.trans hexec
      refine h.check hloc hcall hnames hnodup hle ?_
      rw [registry_lookup, hlookup]
      rfl
    · -- or it does not, and the mutex is given back.
      have hsilent : ∀ worker, t.shared.logging.workers.lookup name = some worker →
          worker.level.toNat < level.toNat :=
        fun worker hlookup => Nat.not_le.mp fun hle => henabled ⟨worker, hlookup, hle⟩
      cases (exec_writes (writes_logTo_silent hsilent msg)).symm.trans hexec
      refine h.checkSilent hloc hcall hnames hnodup fun inForce hlookup => ?_
      rw [registry_lookup] at hlookup
      obtain ⟨worker, hworker, rfl⟩ := Option.map_eq_some_iff.mp hlookup
      exact hsilent worker hworker
  | stamp =>
    cases hcode
    cases hexec
    obtain ⟨inForce, hlookup, hle⟩ := hstamp rfl
    exact h.stamp hloc hcall hnames hnodup hle hlookup
  | write texts =>
    cases texts with
    | nil =>
      cases hcode
      cases hexec
      exact h.unlockWorker hloc hcall hnames hnodup
    | cons text texts =>
      cases hcode
      cases hexec
      exact h.write hloc hcall hnames hnodup

/-- **A step** while nobody has the registry for itself. -/
theorem steady_step (h : Steady g₀ before calls G t) (hcode : t.code k = i :: code)
    (hexec : execThreadStep i t.shared = some (new, s')) :
    Underway g₀ before calls G.hist (t.goOn k s' (new ++ code)) := by
  have hplace := h.place k
  generalize hloc : G.loc k = l at hplace
  generalize hcode' : t.code k = code' at hplace
  rw [hcode] at hcode'
  cases hplace with
  | between => exact steady_step_between h hloc hcode'.symm hexec
  | reading hcall =>
    cases hcode'
    cases hexec
    exact .inl (h.eachWorker hloc hcall)
  | writing hcall hnames hnodup =>
    exact .inl (steady_step_writing h hloc hcall hnames hnodup hcode'.symm hexec)
  | turn hcall hnames hnodup hstamp =>
    exact .inl (steady_step_turn h hloc hcall hnames hnodup hstamp hcode'.symm hexec)

variable {hist : Bytes → List (κ × LoggerCall)}

/-- A step while nobody has the registry for itself: either nobody has it yet, or the thread that
    took the step has. -/
theorem since_step (h : Since g₀ before calls hist t) (hcode : t.code k = i :: code)
    (hexec : execThreadStep i t.shared = some (new, s')) :
    Underway g₀ before calls hist (t.goOn k s' (new ++ code)) := by
  obtain ⟨G, hsteady, hhist⟩ := h
  obtain hsince | ⟨j, howner, hothers, inner, rest, target, hinside, hinner, hrun, hsince⟩ :=
    steady_step hsteady hcode hexec
  · exact .inl (hsince.trans hhist)
  · exact .inr ⟨j, howner, hothers, inner, rest, target, hinside, hinner, hrun, hsince.trans hhist⟩

/-- **A step** while somebody has: it is that one's. -/
theorem changing_step {j : κ} (h : Changing g₀ before calls hist k t) (hcode : t.code j = i :: code)
    (hexec : execThreadStep i t.shared = some (new, s')) :
    Underway g₀ before calls hist (t.goOn j s' (new ++ code)) := by
  rcases eq_or_ne j k with rfl | hne
  · obtain ⟨inner, rest, target, hinside, hinner, hrun, hend⟩ := h.ends
    rw [hcode] at hinside
    cases inner with
    | nil =>
      -- The unlock: what the change does is done.
      cases hinside
      cases hexec
      cases hrun with
      | cons hunlock hrun =>
        cases hunlock
        cases hrun
        exact .inl hend
    | cons _ inner =>
      obtain ⟨rfl, rfl⟩ := List.cons.inj hinside
      -- One step of the change, which keeps the lock.
      obtain ⟨hi, hinner⟩ := List.forall_mem_cons.mp hinner
      obtain ⟨hmutex, hnew⟩ := execThreadStep_inner hi hexec
      refine .inr ⟨j, ?_, fun j' hne => ?_, new ++ inner, rest, target, ?_, ?_, ?_, ?_⟩
      · show s'.logging.mutex.owner ≠ none
        rw [hmutex]
        exact h.owner
      · rw [Threads.goOn_code_of_ne _ hne]
        exact h.others j' hne
      · rw [Threads.goOn_code_self, List.append_assoc]
        rfl
      · exact fun i hi => (List.mem_append.mp hi).elim (hnew i) (hinner i)
      · rw [List.append_assoc]
        exact hrun.tail hexec
      · rwa [Threads.goOn_goOn]
  · -- Another thread can only ask for the lock, which it does not get.
    obtain ⟨rest, hbegin⟩ := h.others j hne
    have hwait := exec_of_owner h.owner (hbegin.symm.trans hcode)
    cases hwait.symm.trans hexec

/-- **Any steps** of any threads. -/
theorem interleaved_underway {t' : Threads κ Shared ThreadStep} (h : Since g₀ before calls hist t)
    (hrun : threadMachine.Interleaves t t') : Underway g₀ before calls hist t' := by
  refine hrun.invariant (.inl h) fun hunderway hcode hexec => ?_
  obtain hsince | ⟨k, hchanging⟩ := hunderway
  · exact since_step hsince hcode hexec
  · exact changing_step hchanging hcode hexec

end

/-! ### Inserted runs -/

omit [DecidableEq κ] in
/-- Nobody has begun. -/
theorem steady_start [DecidableEq κ] (hempty : g₀.workers = []) (hunlocked : g₀.mutex = {}) :
    Steady g₀ before calls
      ⟨fun k => ⟨[], calls k, .between⟩, [], fun _ => none, fun _ => [], fun _ => [], fun _ => [],
        fun _ => []⟩
      ⟨⟨runCalls before g₀, 0⟩, fun k => threadCode (calls k)⟩ := by
  obtain ⟨hfree, hmutex⟩ := @interruptible_runCalls g₀ hempty hunlocked before
  have hkeeps := @keepsTo_runCalls g₀ hempty before
  refine ⟨fun _ => rfl, fun _ => .between, ?locks, ⟨fun _ => rfl, fun _ _ => rfl⟩, ?whole,
    fun _ _ => nofun, fun _ _ => rfl, ?keeps⟩
  case locks =>
    refine ⟨hfree.registry, List.nodup_nil, fun _ => by simp, ?_, held_eq_false hfree,
      fun _ _ => by simp [Place.holder]⟩
    show (runCalls before g₀).mutex.readers = _
    rw [hmutex]
    rfl
  case whole =>
    refine ⟨fun name => ?_, fun _ => .inl rfl⟩
    obtain ⟨text, houtput, hwritten⟩ := (hkeeps.sink name).written
    exact ⟨text, houtput ▸ List.prefix_rfl, by simpa using hwritten⟩
  case keeps =>
    show KeepsTo g₀ ((runCalls before g₀).ahead _) _
    rw [ahead_self fun _ => rfl]
    simpa using hkeeps

/-- **What the sinks hold**, if `hist` is what each of them has been given. -/
structure InSinks (g₀ : Logging) (before : List LoggerCall) (calls : κ → List LoggerCall)
    (hist : Bytes → List (κ × LoggerCall)) (t : Threads κ Shared ThreadStep) : Prop where
  /-- The calls of a thread, and their places among the changes of the registry, are the same in all
      sinks: the calls that it has done, and in some of them the one that it has begun. -/
  common : ∀ k, ∃ common rest, calls k = ofThread k common ++ rest ∧ (t.code k = [] → rest = []) ∧
    ∀ name, around k (hist name) = common ∨
      around k (hist name) = common ++ (rest.take 1).map fun call => (k, call)
  /-- Where nobody is inserting a sink holds all that, and else a beginning of it, -/
  text : ∀ name, ∃ more, (t.shared.held name = false → more = []) ∧
    HasSink g₀ (t.shared.logging.write name more) name
      (sinkAfter name (before ++ (hist name).map Prod.snd))
  /-- but all up to the last. -/
  whole : ∀ name, ∃ whole, (hist name = whole ∨ ∃ e, hist name = whole ++ [e]) ∧
    ∃ text, g₀.outputs name ++ text <+: t.shared.logging.outputs name ∧
      Written g₀.clock name (sinkAfter name (before ++ whole.map Prod.snd)).entries text

/-- A sink has the call that its thread is in, or has not got it yet. -/
theorem Local.latest_cases (l : Local) (name : Bytes) :
    l.latest name = [] ∨ l.latest name = l.rest.take 1 := by
  unfold Local.latest
  split
  · exact .inl rfl
  · split
    · exact .inl rfl
    · exact .inr rfl

/-- A thread with no code left has no calls left. -/
theorem At.rest_of_end {registry : List (Bytes × LogLevel)} {l : Local} (h : At registry l []) :
    l.rest = [] := by
  generalize hend : ([] : List ThreadStep) = code at h
  cases h with
  | @between done rest =>
    cases rest with
    | nil => rfl
    | cons call rest =>
      obtain ⟨level, msg, -, hbegin⟩ | ⟨inner, -, -, -, hbegin⟩ := threadCode_cases call rest
      · cases hend.trans hbegin
      · cases hend.trans hbegin
  | reading => cases hend
  | writing => simp at hend
  | turn => simp at hend

/-- In a steady state the sinks hold what they have been given. -/
theorem Steady.inSinks (h : Steady g₀ before calls G t) : InSinks g₀ before calls G.hist t where
  common k := by
    refine ⟨G.common k, (G.loc k).rest, ?_, fun hend => ?_, fun name => ?_⟩
    · rw [h.past.done, h.calls]
    · have hplace := h.place k
      rw [hend] at hplace
      exact hplace.rest_of_end
    · rw [h.past.around]
      rcases (G.loc k).latest_cases name with hlatest | hlatest
      · left
        rw [hlatest, List.map_nil, List.append_nil]
      · right
        rw [hlatest]
  text name := by
    refine ⟨G.pending name, fun hfree => h.quiet name (h.locks.writer_eq_none hfree), ?_⟩
    have hsink := h.keeps.sink name
    refine ⟨hsink.level, ?_⟩
    rw [outputs_write]
    exact hsink.written
  whole name := ⟨G.whole name, h.whole.last name, h.whole.text name⟩

/-- Where nobody is changing the registry nobody has it for itself. -/
theorem Underway.since {hist : Bytes → List (κ × LoggerCall)} (h : Underway g₀ before calls hist t)
    (hfree : t.shared.logging.mutex.owner = none ∨ ∀ k, t.code k = []) :
    Since g₀ before calls hist t := by
  obtain hsince | ⟨k, hchanging⟩ := h
  · exact hsince
  · rcases hfree with hfree | hend
    · exact absurd hfree hchanging.owner
    · obtain ⟨inner, rest, target, hinside, -⟩ := hchanging.ends
      rw [hend k] at hinside
      cases inner <;> cases hinside

/-- **The log under threads.**  Wherever any number of threads have come to, in any order that the
    locks leave open, if nobody is changing the registry or everybody has ended: every sink holds
    whole entries, of each thread those of the calls that it has made, in their order and each of
    them once, and in the same places among the changes of the registry as in all other sinks;
    while its mutex is held the last entry may be there in part.  Wherever they come from there,
    every sink has been given what it had been given, and then more. -/
theorem threads_delivery (hempty : g₀.workers = []) (hunlocked : g₀.mutex = {})
    (h : threadMachine.Interleaves ⟨⟨runCalls before g₀, 0⟩, fun k => threadCode (calls k)⟩ t)
    (hfree : t.shared.logging.mutex.owner = none ∨ ∀ k, t.code k = [])
    {t' : Threads κ Shared ThreadStep} (h' : threadMachine.Interleaves t t')
    (hfree' : t'.shared.logging.mutex.owner = none ∨ ∀ k, t'.code k = []) :
    ∃ hist hist', InSinks g₀ before calls hist t ∧ InSinks g₀ before calls hist' t' ∧
      ∀ name, hist name <+: hist' name := by
  have hstart : Since g₀ before calls (fun _ => []) _ :=
    ⟨_, steady_start hempty hunlocked, fun _ => List.prefix_rfl⟩
  obtain ⟨G, hsteady, -⟩ := (interleaved_underway hstart h).since hfree
  obtain ⟨G', hsteady', hmore⟩ :=
    (interleaved_underway ⟨G, hsteady, fun _ => List.prefix_rfl⟩ h').since hfree'
  exact ⟨G.hist, G'.hist, hsteady.inSinks, hsteady'.inSinks, hmore⟩

/-- Two threads that each make the call of `pollCall`. -/
def twoCallers : Threads Bool Shared ThreadStep :=
  ⟨⟨runCalls mainFiles noLogging, 0⟩, fun _ => threadCode [pollCall]⟩

/-- What they write. -/
def pollMessage : Bytes :=
  Logger.message .INFO (bytes "HTTPServer.cpp") 114 (bytes "run") (bytes "Blocking on poll...")

/-- What they share when one of them has written to the first file. -/
def betweenFiles : Shared :=
  ((Shared.mk (runCalls mainFiles noLogging) 0).takeShared .thread).onLogging
    (·.logTo (bytes "log/info.log") .INFO pollMessage)

/-- What that one has still to do. -/
def secondFile : List ThreadStep :=
  workersCode .INFO pollMessage [bytes "log/trace.log"] ++ [.step .unlockShared]

/-- Between two files no lock is held that the handler needs. -/
theorem betweenFiles_interruptible : Interruptible betweenFiles :=
  Interruptible.logTo ⟨rfl, by decide +kernel⟩ ..

/-- The second thread comes to stand between the two files; the first has not begun. -/
theorem interleaves_betweenFiles : threadMachine.Interleaves twoCallers
    (twoCallers.goOn true betweenFiles secondFile) := by
  let reading := (Shared.mk (runCalls mainFiles noLogging) 0).takeShared .thread
  have hreading : Interruptible reading := ⟨rfl, by decide +kernel⟩
  -- The second thread alone: it takes the lock, begins, and writes to the first file.
  have hstart : threadMachine.Interleaves twoCallers twoCallers := .start
  have hbegin : twoCallers.code true = [.step .lockShared]
      ++ [.step (.eachWorker .INFO pollMessage), .step .unlockShared] := rfl
  have hlock : threadMachine.Completes .thread twoCallers.shared [.step .lockShared] reading :=
    completes_of_logger (Machine.completes_one (exec_lockShared rfl .thread))
  have hread := hstart.run rfl hbegin hlock
  have heach : threadMachine.Interleaves twoCallers (twoCallers.goOn true reading
      ((workerLogCode .INFO pollMessage (bytes "log/info.log")).map .step ++ secondFile)) := by
    have hnext := hread.step (Threads.goOn_code_self ..) rfl
    rw [Threads.goOn_goOn] at hnext
    exact hnext
  have hfirst := heach.run (k := true) rfl (Threads.goOn_code_self ..) (completes_of_logger
    (completes_worker .thread hreading (bytes "log/info.log") .INFO pollMessage))
  rwa [Threads.goOn_goOn] at hfirst

/-- The other one makes its call in between. -/
theorem threads_delivery_between : ∃ t' : Threads Bool Shared ThreadStep, (∀ k, t'.code k = []) ∧
    ∃ hist hist', InSinks noLogging mainFiles (fun _ => [pollCall]) hist
        (twoCallers.goOn true betweenFiles secondFile) ∧
      InSinks noLogging mainFiles (fun _ => [pollCall]) hist' t' ∧
      ∀ name, hist name <+: hist' name := by
  let t := twoCallers.goOn true betweenFiles secondFile
  let called := betweenFiles.onLogging (·.log .INFO pollMessage)
  -- The first thread makes its whole call, then the second ends its own.
  have hcalled : Interruptible called := (betweenFiles_interruptible.run (.log .INFO pollMessage)).1
  have hother : t.code false = (LogCall.log .INFO pollMessage).code.map .step ++ [] := rfl
  have hstart : threadMachine.Interleaves t t := .start
  have hcall := hstart.run rfl hother
    (completes_of_logger (completes_log .thread betweenFiles_interruptible .INFO pollMessage))
  have hrest : (t.goOn false called []).code true
      = (workerLogCode .INFO pollMessage (bytes "log/trace.log")
        ++ [LogStep.unlockShared]).map .step ++ [] := rfl
  have hend := hcall.run rfl hrest (completes_of_logger ((completes_worker .thread hcalled
    (bytes "log/trace.log") .INFO pollMessage).append (Machine.completes_one rfl)))
  have hcodes : ∀ s k, ((t.goOn false called []).goOn true s []).code k = [] := by
    intro s k
    cases k <;> rfl
  exact ⟨_, hcodes _, threads_delivery rfl rfl interleaves_betweenFiles
    (.inl betweenFiles_interruptible.registry) hend (.inr (hcodes _))⟩

/-! ### Deadlock -/

/-- A worker's `log` is made of insertions. -/
theorem writes_logTo_isSome (g : Logging) (name : Bytes) (level : LogLevel) (msg : Bytes) :
    ∃ new, (LogStep.logTo name level msg).writes g = some new := by
  simp only [LogStep.writes]
  split
  · exact ⟨_, rfl⟩
  · split
    · exact ⟨_, rfl⟩
    · exact ⟨_, rfl⟩

/-- A thread in a `LOG` goes on, unless the next worker's mutex is held. -/
theorem At.goes {registry : List (Bytes × LogLevel)} {l : Local} {code : List ThreadStep}
    (h : At registry l code) (hplace : l.place ≠ .between) {s : Shared}
    (hfree : ∀ name names, l.place = .writing (name :: names) → s.held name = false) :
    ∃ i rest, code = i :: rest ∧ execThreadStep i s ≠ none := by
  cases h with
  | between => exact absurd rfl hplace
  | reading => exact ⟨_, _, rfl, nofun⟩
  | @writing _ _ _ _ _ names =>
    -- Only a worker's mutex can be waited for, and that one is free.
    cases names with
    | nil => exact ⟨_, _, rfl, nofun⟩
    | cons name names =>
      refine ⟨_, _, rfl, ?_⟩
      rw [@exec_plain s (.lockWorker name) _ _ rfl (exec_lockWorker (hfree name names rfl) .thread)]
      exact nofun
  | @turn _ _ _ level msg name turn _ =>
    cases turn with
    | check =>
      obtain ⟨new, hwrites⟩ := writes_logTo_isSome s.logging name level msg
      refine ⟨_, _, rfl, ?_⟩
      rw [exec_writes hwrites]
      exact nofun
    | stamp => exact ⟨_, _, rfl, nofun⟩
    | write texts =>
      cases texts with
      | nil => exact ⟨_, _, rfl, nofun⟩
      | cons text texts => exact ⟨_, _, rfl, nofun⟩

/-- While everybody is between two calls, everybody can begin the next. -/
theorem begins {s : Shared} (howner : s.logging.mutex.owner = none)
    (hreaders : s.logging.mutex.readers = []) {rest : List LoggerCall} (h : threadCode rest ≠ []) :
    ∃ i code, threadCode rest = i :: code ∧ execThreadStep i s ≠ none := by
  cases rest with
  | nil => exact absurd rfl h
  | cons call rest =>
    obtain ⟨level, msg, -, hbegin⟩ | ⟨inner, -, -, -, hbegin⟩ := threadCode_cases call rest
    · refine ⟨_, _, hbegin, ?_⟩
      rw [@exec_plain s .lockShared _ _ rfl (exec_lockShared howner .thread)]
      exact nofun
    · refine ⟨_, _, hbegin, ?_⟩
      show Option.map _ (if _ then _ else _) ≠ _
      rw [howner, hreaders]
      exact nofun

/-- Where some thread has something to do, one does not wait. -/
theorem Steady.goes (h : Steady g₀ before calls G t) (hcode : t.code k ≠ []) :
    ∃ j i rest, t.code j = i :: rest ∧ execThreadStep i t.shared ≠ none := by
  by_cases hbetween : ∀ j, (G.loc j).place = .between
  · -- All are between two calls: nobody holds the registry, so the next call begins.
    have hreaders : G.readers = [] :=
      List.eq_nil_iff_forall_not_mem.mpr fun j hmem => (h.locks.reading j).mp hmem (hbetween j)
    have hbegin := ((h.place k).of_between (hbetween k)).1
    rw [hbegin] at hcode
    obtain ⟨i, rest, hhead, hgoes⟩ := begins h.locks.free
      (by rw [h.locks.readers, hreaders]; rfl) hcode
    exact ⟨k, i, rest, hbegin.trans hhead, hgoes⟩
  · obtain ⟨j, hj⟩ := not_forall.mp hbetween
    by_cases hholds : ∃ j name, G.writer name = some j
    · -- Whoever is inserting does not wait.
      obtain ⟨j, name, hwriter⟩ := hholds
      have hholder := (h.locks.holder j name).mp hwriter
      have hturn : ∀ place : Place, place.holder = none → (G.loc j).place ≠ place := by
        rintro place hnone rfl
        cases hnone.symm.trans hholder
      obtain ⟨i, rest, hgoes⟩ := (h.place j).goes (hturn _ rfl)
        fun name names hplace => absurd hplace (hturn _ rfl)
      exact ⟨j, i, rest, hgoes⟩
    · -- Nobody is, and no worker's mutex is held.
      have hfree : ∀ name, t.shared.held name = false := by
        intro name
        rw [h.locks.held]
        cases hwriter : G.writer name with
        | none => rfl
        | some j => exact absurd ⟨j, name, hwriter⟩ hholds
      obtain ⟨i, rest, hgoes⟩ := (h.place j).goes hj fun name names _ => hfree name
      exact ⟨j, i, rest, hgoes⟩

/-- **No deadlock.**  Wherever any number of threads have come to, somebody who has not ended can go
    on: the registry is never waited for by somebody whom its owner or its readers wait for, nor is
    the mutex of a worker. -/
theorem threads_not_stuck (hempty : g₀.workers = []) (hunlocked : g₀.mutex = {})
    (h : threadMachine.Interleaves ⟨⟨runCalls before g₀, 0⟩, fun k => threadCode (calls k)⟩ t) :
    ¬ threadMachine.Stuck t := by
  rintro ⟨⟨k, hcode⟩, hwait⟩
  have hstart : Since g₀ before calls (fun _ => []) _ :=
    ⟨_, steady_start hempty hunlocked, fun _ => List.prefix_rfl⟩
  obtain ⟨G, hsteady, -⟩ | ⟨k, hchanging⟩ := interleaved_underway hstart h
  · obtain ⟨j, i, rest, hhead, hgoes⟩ := hsteady.goes hcode
    exact hgoes (hwait j i rest hhead)
  · obtain ⟨inner, rest, target, hinside, -, hrun, -⟩ := hchanging.ends
    cases inner with
    | nil => exact hrun.not_waiting (hwait k _ _ hinside)
    | cons i inner => exact hrun.not_waiting (hwait k _ _ hinside)

end

/-- One of two threads has written to the first file, the other has not begun. -/
theorem threads_not_stuck_between :
    ¬ threadMachine.Stuck (twoCallers.goOn true betweenFiles secondFile) :=
  threads_not_stuck rfl rfl interleaves_betweenFiles

end Evaluation
