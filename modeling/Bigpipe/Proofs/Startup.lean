import Bigpipe.Proofs.Config
import Bigpipe.Startup

/-!
# `Bigpipe.Proofs.Startup`: what `Init` leaves to the calls after it

`Acceptor::Init` returns false where the acceptor has no configuration
yet, and is the only one to give it one. `main` goes on with the null
pointers of a fresh acceptor.

The guard of `Init` is the wrong way round. So start-up is looked at
for two acceptors. For one that has a configuration, which the program
cannot have, every pointer is set before it is used: `Wired` says at
which call of `main` each of them is, and every step keeps it. For a
fresh one the seven calls after `ParseConfig` can be written down, and
the last of them is undefined.

* `established_iff`: start-up establishes what the threads need
  exactly where the acceptor had a configuration before `Init`, if the
  server can listen and the channel can be made.
* `neverEstablished`: no start-up does so for a fresh acceptor.
-/

set_option autoImplicit false

namespace Bigpipe.Startup

open Bigpipe.Lib (System)
open Bigpipe.Lib.Validation

variable {folly : Folly} {conv : Conversions} {fs : FileSystem} {path : String}
  {served : Served} {acceptor acceptor' : Acceptor} {config : Config} {s s' : State} {e : Event}

/-! ### What start-up has to establish -/

/-- `Init` succeeds and makes a channel of the configured capacity.
The address is that of the first channel, as no other call makes
one. -/
def InitSucceeds (served : Served) (acceptor : Acceptor) (config : Config) : Prop :=
  ∃ acceptor' channel, acceptor.init served 0 config = .ok (true, acceptor') ∧
    acceptor'.getTaskChannel = some channel ∧
    (channel.capacity : Int) = config.httpServerHandlerChannelSize

/-- `main` is behind `acceptor.Init(config)`, whatever that returned:
`main` does not look. -/
def MainPc.inited : MainPc → Bool
  | .parseConfig | .initAcceptor => false
  | .initProducer | .setJobChannel | .initConsumer | .startConsumer | .startProducer
  | .setRunning | .startAcceptor | .waitForUserInterrupt | .stopAcceptor | .stopProducer | .stopPut
  | .stopJoin | .stopConsumer => true

/-- `main` is behind
`producer.SetJobChannel(acceptor.GetTaskChannel())`. -/
def MainPc.wired : MainPc → Bool
  | .parseConfig | .initAcceptor | .initProducer | .setJobChannel => false
  | .initConsumer | .startConsumer | .startProducer | .setRunning | .startAcceptor
  | .waitForUserInterrupt | .stopAcceptor | .stopProducer | .stopPut | .stopJoin
  | .stopConsumer => true

/-- From there on, the acceptor and the producer have the same
channel: one object, and not two of the same size. -/
def SameChannel (sys : System State Event) : Prop :=
  ∀ s, sys.Reachable s → s.main.wired = true → ∃ channel,
    s.acceptor.getTaskChannel = some channel ∧ s.producer.taskchan = some channel

/-- No null pointer is dereferenced, in any reachable state and by any
thread. -/
def NeverNull (sys : System State Event) : Prop :=
  ∀ s, sys.Reachable s → s.ended ≠ some .nullDereference

/-- Start-up establishes what the threads need: `Init` succeeds, the
acceptor and the producer share one channel, and no null pointer is
dereferenced. -/
structure Established (sys : System State Event) (served : Served) (acceptor : Acceptor)
    (config : Config) : Prop where
  init : InitSucceeds served acceptor config
  sameChannel : SameChannel sys
  neverNull : NeverNull sys

/-! ### `Init` -/

/-- Without a configuration `Init` changes nothing. -/
theorem init_of_fresh (h : acceptor.bigConf = none) (address : Nat) :
    acceptor.init served address config = .ok (false, acceptor) := by
  rw [Acceptor.init, h]
  rfl

/-- With one, an `Init` that returns has made the server and the
channel. -/
theorem init_of_configured (h : acceptor.bigConf ≠ none) {address : Nat} {b : Bool}
    (hinit : acceptor.init served address config = .ok (b, acceptor')) :
    b = true ∧ acceptor'.httpServer ≠ none ∧ ∃ channel, acceptor'.taskchan = some channel ∧
      (channel.capacity : Int) = config.httpServerHandlerChannelSize := by
  have hconf : ¬ acceptor.bigConf.isNone = true := by
    rw [Option.isNone_iff_eq_none]
    exact h
  rw [Acceptor.init, if_neg hconf] at hinit
  simp only [bind_eq_ok, mapError_eq_ok, pure_eq_ok] at hinit
  obtain ⟨-, -, channel, hchannel, heq⟩ := hinit
  cases heq
  obtain ⟨hsize, hchannel⟩ := ite_error_eq_ok.mp hchannel
  cases hchannel
  refine ⟨rfl, nofun, _, rfl, ?_⟩
  show (config.httpServerHandlerChannelSize.toNat : Int) = _
  omega

/-- It dereferences no null pointer. Where it fails, the server or the
channel has thrown. -/
theorem init_ne_nullDereference {address : Nat} {ending : Ending}
    (hinit : acceptor.init served address config = .error ending) :
    ending ≠ .nullDereference := by
  unfold Acceptor.init at hinit
  split at hinit
  · cases hinit
  · cases hlisten : served.listen config.httpServerPort with
    | error what =>
        rw [hlisten] at hinit
        cases hinit
        nofun
    | ok =>
        rw [hlisten] at hinit
        cases hchannel : newChannel address config.httpServerHandlerChannelSize with
        | error what =>
            rw [hchannel] at hinit
            cases hinit
            nofun
        | ok channel =>
            rw [hchannel] at hinit
            cases hinit

/-- It returns where the server can listen and the channel can be
made. -/
theorem exists_init (h : acceptor.bigConf ≠ none)
    (hlisten : served.listen config.httpServerPort = .ok ())
    (hsize : 0 ≤ config.httpServerHandlerChannelSize) (address : Nat) :
    ∃ b acceptor', acceptor.init served address config = .ok (b, acceptor') := by
  have hconf : ¬ acceptor.bigConf.isNone = true := by
    rw [Option.isNone_iff_eq_none]
    exact h
  have hchannel : newChannel address config.httpServerHandlerChannelSize =
      .ok ⟨address, config.httpServerHandlerChannelSize.toNat⟩ := if_neg (by omega)
  rw [Acceptor.init, if_neg hconf, hlisten, hchannel]
  exact ⟨_, _, rfl⟩

/-! ### An acceptor with a configuration -/

/-- Every step is made before the end, and gives a state or an end. -/
theorem step_cases (h : (system folly conv fs path served acceptor).step s e = some s') :
    s.ended = none ∧ ∃ result, move folly conv fs path served s e = some result ∧
      s' = s.after result := by
  have hended : ¬ s.ended.isSome = true := by
    intro hsome
    rw [show (system folly conv fs path served acceptor).step s e = none from if_pos hsome] at h
    cases h
  rw [show (system folly conv fs path served acceptor).step s e = Option.map s.after _ from
    if_neg hended] at h
  obtain ⟨result, hresult, heq⟩ := Option.map_eq_some_iff.mp h
  exact ⟨by simpa using hended, result, hresult, heq.symm⟩

/-- What is set, depending on where `main` is. The threads that `main`
starts come after the pointers that they use, so nothing has to be
said about how far they are. -/
structure Wired (s : State) : Prop where
  config : s.main ≠ .parseConfig → s.config ≠ none
  bigConf : s.main.inited = false → s.acceptor.bigConf ≠ none
  httpServer : s.main.inited = true → s.acceptor.httpServer ≠ none
  acceptor : s.main.inited = true → s.acceptor.taskchan ≠ none
  producer : s.main.wired = true → s.producer.taskchan = s.acceptor.taskchan
  threads : s.main.wired = false → s.pushing ≠ .running ∧ s.serving = false
  ended : s.ended ≠ some .nullDereference

/-- A pointer that is not null can be dereferenced. -/
theorem deref_of_ne_none {α : Type} {p : Option α} (h : p ≠ none) : ∃ a, deref p = .ok a := by
  obtain ⟨a, ha⟩ := Option.ne_none_iff_exists'.mp h
  rw [ha]
  exact ⟨a, rfl⟩

/-- What is behind `SetJobChannel` is behind `Init`. -/
theorem MainPc.inited_of_wired {pc : MainPc} (h : pc.wired = true) : pc.inited = true := by
  cases pc with
  | parseConfig | initAcceptor | initProducer | setJobChannel => cases h
  | initConsumer | startConsumer | startProducer | setRunning | startAcceptor
  | waitForUserInterrupt | stopAcceptor | stopProducer | stopPut | stopJoin | stopConsumer => rfl

/-- The server and the channel are there from `SetJobChannel` on. -/
theorem Wired.pointers (h : Wired s) (hmain : s.main.wired = true) :
    s.acceptor.httpServer ≠ none ∧ s.acceptor.taskchan ≠ none ∧ s.producer.taskchan ≠ none := by
  have hinited := MainPc.inited_of_wired hmain
  refine ⟨h.httpServer hinited, h.acceptor hinited, ?_⟩
  rw [h.producer hmain]
  exact h.acceptor hinited

/-- The end of the process sets nothing, unless a null pointer ends
it. -/
theorem Wired.error (h : Wired s) {ending : Ending} (hending : ending ≠ .nullDereference) :
    Wired (s.after (.error ending)) := by
  refine ⟨h.config, h.bigConf, h.httpServer, h.acceptor, h.producer, h.threads, ?_⟩
  show some ending ≠ some .nullDereference
  rwa [ne_eq, Option.some.injEq]

/-- Behind `SetJobChannel`, a step that leaves the pointers as they
are keeps what is set. -/
theorem Wired.of_pointers (h : Wired s) (hmain : s.main.wired = true)
    (hmain' : s'.main.wired = true) (hconfig : s'.config = s.config)
    (hacceptor : s'.acceptor = s.acceptor) (hproducer : s'.producer.taskchan = s.producer.taskchan)
    (hended : s'.ended = s.ended) : Wired s' := by
  have hinited := MainPc.inited_of_wired hmain'
  obtain ⟨hserver, hchannel, -⟩ := h.pointers hmain
  refine ⟨fun _ => ?_, fun hnot => ?_, fun _ => ?_, fun _ => ?_, fun _ => ?_, fun hnot => ?_, ?_⟩
  · rw [hconfig]
    refine h.config fun heq => ?_
    rw [heq] at hmain
    cases hmain
  · rw [hinited] at hnot
    cases hnot
  · rw [hacceptor]
    exact hserver
  · rw [hacceptor]
    exact hchannel
  · rw [hproducer, hacceptor]
    exact h.producer hmain
  · rw [hmain'] at hnot
    cases hnot
  · rw [hended]
    exact h.ended

/-- Before any step. -/
theorem wired_initial (h : acceptor.bigConf ≠ none) (isRunning : Bool) :
    Wired (initial acceptor isRunning) :=
  ⟨fun hne => absurd rfl hne, fun _ => h, nofun, nofun, nofun, fun _ => ⟨nofun, rfl⟩, nofun⟩

/-- The call of `ParseConfig`. From here on the configuration is
there, since `main` returns where it is null. -/
theorem Wired.parseConfig (h : Wired s) (hmain : s.main = .parseConfig)
    {result : Except Ending State} (hmove : main folly conv fs path served s = some result) :
    Wired (s.after result) := by
  have hinited : s.main.inited = false := by
    rw [hmain]
    rfl
  have hwired : s.main.wired = false := by
    rw [hmain]
    rfl
  simp only [main, hmain] at hmove
  split at hmove
  · cases hmove
    exact ⟨nofun, fun _ => h.bigConf hinited, nofun, nofun, nofun, fun _ => h.threads hwired,
      h.ended⟩
  all_goals
    cases hmove
    exact h.error nofun

/-- The call of `acceptor.Init`: with a configuration it makes the
server and the channel, or throws. -/
theorem Wired.initAcceptor (h : Wired s) (hmain : s.main = .initAcceptor)
    {result : Except Ending State} (hmove : main folly conv fs path served s = some result) :
    Wired (s.after result) := by
  have hinited : s.main.inited = false := by
    rw [hmain]
    rfl
  have hwired : s.main.wired = false := by
    rw [hmain]
    rfl
  have hbefore : s.main ≠ .parseConfig := by
    rw [hmain]
    nofun
  obtain ⟨config, hconfig⟩ := deref_of_ne_none (h.config hbefore)
  simp only [main, hmain, hconfig, ok_bind] at hmove
  cases hmove
  -- `Init` may throw, but not by dereferencing null; when it returns it has
  -- set the server and the channel.
  cases hinit : s.acceptor.init served 0 config with
  | error ending => exact h.error (init_ne_nullDereference hinit)
  | ok value =>
      obtain ⟨b, acceptor⟩ := value
      obtain ⟨-, hserver, channel, hchannel, -⟩ := init_of_configured (h.bigConf hinited) hinit
      refine ⟨fun _ => h.config hbefore, nofun, fun _ => hserver, fun _ => ?_, nofun,
        fun _ => h.threads hwired, h.ended⟩
      show acceptor.taskchan ≠ none
      rw [hchannel]
      nofun

/-- The call of `producer.Init`. It reads the configuration and sets
no pointer that the threads use. -/
theorem Wired.initProducer (h : Wired s) (hmain : s.main = .initProducer)
    {result : Except Ending State} (hmove : main folly conv fs path served s = some result) :
    Wired (s.after result) := by
  have hinited : s.main.inited = true := by
    rw [hmain]
    rfl
  have hwired : s.main.wired = false := by
    rw [hmain]
    rfl
  have hbefore : s.main ≠ .parseConfig := by
    rw [hmain]
    nofun
  obtain ⟨config, hconfig⟩ := deref_of_ne_none (h.config hbefore)
  simp only [main, hmain, hconfig, ok_bind] at hmove
  cases hmove
  exact ⟨fun _ => h.config hbefore, nofun, fun _ => h.httpServer hinited,
    fun _ => h.acceptor hinited, nofun, fun _ => h.threads hwired, h.ended⟩

/-- The call of `producer.SetJobChannel`. -/
theorem Wired.setJobChannel (h : Wired s) (hmain : s.main = .setJobChannel)
    {result : Except Ending State} (hmove : main folly conv fs path served s = some result) :
    Wired (s.after result) := by
  have hinited : s.main.inited = true := by
    rw [hmain]
    rfl
  have hbefore : s.main ≠ .parseConfig := by
    rw [hmain]
    nofun
  simp only [main, hmain] at hmove
  cases hmove
  exact ⟨fun _ => h.config hbefore, nofun, fun _ => h.httpServer hinited,
    fun _ => h.acceptor hinited, fun _ => rfl, nofun, h.ended⟩

/-- The calls behind it. They assign none of the pointers, so what
they dereference is still there. -/
theorem Wired.rest (h : Wired s) (hmain : s.main.wired = true)
    {result : Except Ending State} (hmove : main folly conv fs path served s = some result) :
    Wired (s.after result) := by
  obtain ⟨hserver, hchannel, hproducer⟩ := h.pointers hmain
  obtain ⟨server, hserver⟩ := deref_of_ne_none hserver
  obtain ⟨chan, hproducer⟩ := deref_of_ne_none hproducer
  -- Each later step dereferences only the server, the channel or the
  -- producer's channel, and none of them is null once main is past
  -- `SetJobChannel`.
  cases hpc : s.main with
  | parseConfig | initAcceptor | initProducer | setJobChannel =>
      rw [hpc] at hmain
      cases hmain
  | initConsumer | startConsumer | setRunning | waitForUserInterrupt | stopProducer =>
      simp only [main, hpc] at hmove
      cases hmove
      exact h.of_pointers hmain rfl rfl rfl rfl rfl
  | startProducer =>
      simp only [main, hpc] at hmove
      split at hmove
      · cases hmove
        exact h.of_pointers hmain rfl rfl rfl rfl rfl
      · cases hmove
        exact h.of_pointers hmain rfl rfl rfl rfl rfl
  | startAcceptor =>
      simp only [main, hpc, Acceptor.start, hserver] at hmove
      cases hmove
      exact h.of_pointers hmain rfl rfl rfl rfl rfl
  | stopAcceptor =>
      simp only [main, hpc, Acceptor.stop, hserver] at hmove
      cases hmove
      exact h.of_pointers hmain rfl rfl rfl rfl rfl
  | stopPut =>
      simp only [main, hpc, hproducer] at hmove
      cases hmove
      exact h.of_pointers hmain rfl rfl rfl rfl rfl
  -- There is no `producers[0]`, which is undefined but no null pointer.
  | stopJoin =>
      simp only [main, hpc] at hmove
      split at hmove
      · cases hmove
        exact h.error nofun
      · cases hmove
      · cases hmove
        exact h.of_pointers hmain rfl rfl rfl rfl rfl
  | stopConsumer =>
      simp only [main, hpc] at hmove
      cases hmove
      exact h.error nofun

/-- Where a thread runs beside `main`, `main` is behind
`SetJobChannel`. -/
theorem Wired.of_threads (h : Wired s) (hthreads : s.pushing = .running ∨ s.serving = true) :
    s.main.wired = true := by
  by_contra hnot
  obtain ⟨hpushing, hserving⟩ := h.threads (by simpa using hnot)
  rcases hthreads with hrunning | hserves
  · exact hpushing hrunning
  · rw [hserving] at hserves
    cases hserves

/-- Every step keeps what is set. The calls of `main` up to
`SetJobChannel` have a lemma each, and the calls behind it one
together. -/
theorem Wired.step (h : Wired s)
    (hs : (system folly conv fs path served acceptor).step s e = some s') : Wired s' := by
  obtain ⟨-, result, hmove, rfl⟩ := step_cases hs
  -- Main's first four steps set the pointers and have a lemma each; the two
  -- threads run only when all of them are set.
  cases e with
  | main =>
      cases hpc : s.main with
      | parseConfig => exact h.parseConfig hpc hmove
      | initAcceptor => exact h.initAcceptor hpc hmove
      | initProducer => exact h.initProducer hpc hmove
      | setJobChannel => exact h.setJobChannel hpc hmove
      | initConsumer | startConsumer | startProducer | setRunning | startAcceptor
      | waitForUserInterrupt | stopAcceptor | stopProducer | stopPut | stopJoin | stopConsumer =>
          exact h.rest (by rw [hpc]; rfl) hmove
  | pushing =>
      change pushing s = some result at hmove
      cases hpushing : s.pushing with
      | unborn | left =>
          simp only [pushing, hpushing] at hmove
          cases hmove
      | running =>
          have hwired := h.of_threads (.inl hpushing)
          obtain ⟨chan, hchan⟩ := deref_of_ne_none (h.pointers hwired).2.2
          simp only [pushing, hpushing, hchan] at hmove
          split at hmove
          · cases hmove
            exact h
          · cases hmove
            exact h.of_pointers hwired hwired rfl rfl rfl rfl
  | rpcCallback =>
      change rpcCallback s = some result at hmove
      unfold rpcCallback at hmove
      split at hmove
      · rename_i hserving
        obtain ⟨chan, hchan⟩ := deref_of_ne_none (h.pointers (h.of_threads (.inr hserving))).2.1
        simp only [Acceptor.rpcCallback, hchan] at hmove
        cases hmove
        exact h
      · cases hmove

/-- What is set in every reachable state. -/
theorem wired_of_reachable (h : acceptor.bigConf ≠ none)
    (hs : (system folly conv fs path served acceptor).Reachable s) : Wired s := by
  refine hs.induct ?_ fun s e s' _ hwired hstep => hwired.step hstep
  rintro s ⟨isRunning, rfl⟩
  exact wired_initial h isRunning

/-- From an acceptor with a configuration, the acceptor and the
producer get the same channel. -/
theorem sameChannel_of_configured (h : acceptor.bigConf ≠ none) :
    SameChannel (system folly conv fs path served acceptor) := by
  intro s hs hmain
  have hwired := wired_of_reachable h hs
  obtain ⟨channel, hchannel⟩ := Option.ne_none_iff_exists'.mp (hwired.pointers hmain).2.1
  exact ⟨channel, hchannel, (hwired.producer hmain).trans hchannel⟩

/-- And no null pointer is dereferenced. -/
theorem neverNull_of_configured (h : acceptor.bigConf ≠ none) :
    NeverNull (system folly conv fs path served acceptor) := by
  intro s hs
  exact (wired_of_reachable h hs).ended

/-- Where the server can listen and the channel can be made, start-up
establishes what the threads need exactly if the acceptor had a
configuration before `Init`. -/
theorem established_iff (hlisten : served.listen config.httpServerPort = .ok ())
    (hsize : 0 ≤ config.httpServerHandlerChannelSize) :
    Established (system folly conv fs path served acceptor) served acceptor config ↔
      acceptor.bigConf ≠ none := by
  constructor
  · intro hestablished hfresh
    obtain ⟨acceptor', channel, hinit, -, -⟩ := hestablished.init
    cases (init_of_fresh hfresh 0).symm.trans hinit
  · intro h
    refine ⟨?_, sameChannel_of_configured h, neverNull_of_configured h⟩
    obtain ⟨b, acceptor', hinit⟩ := exists_init h hlisten hsize 0
    obtain ⟨rfl, -, channel, hchannel, hcapacity⟩ := init_of_configured h hinit
    exact ⟨acceptor', channel, hinit, hchannel, hcapacity⟩

/-! ### A fresh acceptor -/

/-- The state in which `main` calls `producer.SetJobChannel`, with a
fresh acceptor. -/
def freshInited (config : Config) : State :=
  { initial {} false with
    main := .setJobChannel
    config := some config
    producer := { bigConf := some config, isRunning := false } }

/-- The state in front of `acceptor.Start()`: `main` went on with the
null pointers. -/
def freshStarted (config : Config) : State :=
  { freshInited config with main := .startAcceptor }

/-- Three calls lead to the first of these states. -/
theorem run_freshInited (hparse : Config.parseConfig folly conv fs path = .ok (some config)) :
    (system folly conv fs path served {}).run (initial {} false) [.main, .main, .main] =
      some (freshInited config) := by
  have hstep : (system folly conv fs path served {}).step (initial {} false) .main =
      some { initial {} false with main := .initAcceptor, config := some config } := by
    show (main folly conv fs path served (initial {} false)).map _ = _
    have hmain : main folly conv fs path served (initial {} false) =
        some (.ok { initial {} false with main := .initAcceptor, config := some config }) := by
      simp only [main, initial, hparse]
    rw [hmain]
    rfl
  exact (System.run_cons hstep).trans rfl

/-- Four more to the second one. `KafkaProducer::Start` returned
false. -/
theorem run_freshStarted :
    (system folly conv fs path served {}).run (freshInited config) [.main, .main, .main, .main] =
      some (freshStarted config) := rfl

/-- For every file that is accepted and a fresh acceptor: `Init` does
not succeed, there is no channel that the acceptor and the producer
have, and a null pointer is dereferenced.

No step of it depends on the file, once it is accepted, nor on the
machine. -/
theorem neverEstablished (served : Served)
    (hparse : Config.parseConfig folly conv fs path = .ok (some config)) :
    ¬ InitSucceeds served {} config ∧
      ¬ SameChannel (system folly conv fs path served {}) ∧
      ¬ NeverNull (system folly conv fs path served {}) := by
  have hinitial : (system folly conv fs path served {}).Reachable (initial {} false) :=
    .init ⟨false, rfl⟩
  have hinited : (system folly conv fs path served {}).Reachable (freshInited config) :=
    hinitial.run (run_freshInited hparse)
  have hstarted : (system folly conv fs path served {}).Reachable (freshStarted config) :=
    hinited.run run_freshStarted
  refine ⟨fun hsucceeds => ?_, fun hsame => ?_, fun hnever => ?_⟩
  · obtain ⟨acceptor', channel, hinit, -, -⟩ := hsucceeds
    cases (init_of_fresh rfl 0).symm.trans hinit
  · obtain ⟨channel, hchannel, -⟩ := hsame _ hstarted rfl
    cases hchannel
  · -- `httpServer->run(1)`
    exact hnever { freshStarted config with ended := some .nullDereference }
      (hstarted.step (e := .main) rfl) rfl

/-- A machine on which the server can listen on every port. -/
def anyPort : Served where
  listen _ := .ok ()

/-- `neverEstablished` at the file with the topic `orders`. -/
theorem neverEstablished_ordersFile :
    ¬ InitSucceeds anyPort {} Config.ordersConfig ∧
      ¬ SameChannel (system compactFolly compactConversions Config.ordersFile "bigpipe.json"
        anyPort {}) ∧
      ¬ NeverNull (system compactFolly compactConversions Config.ordersFile "bigpipe.json"
        anyPort {}) :=
  neverEstablished anyPort Config.parseConfig_ordersFile

/-- With that file, which is accepted, the seventh call after
`ParseConfig` dereferences the null pointer `httpServer`. -/
theorem nullDereference_ordersFile :
    Config.parseConfig compactFolly compactConversions Config.ordersFile "bigpipe.json" =
        .ok (some Config.ordersConfig) ∧
      Acceptor.init anyPort 0 Config.ordersConfig {} = .ok (false, {}) ∧
      (∃ s, (system compactFolly compactConversions Config.ordersFile "bigpipe.json" anyPort
          {}).run (initial {} false) [.main, .main, .main, .main, .main, .main, .main, .main] =
            some s ∧
        s.main = .startAcceptor ∧ s.acceptor.httpServer = none ∧ s.producer.taskchan = none ∧
        s.ended = some .nullDereference) ∧
      ¬ Established (system compactFolly compactConversions Config.ordersFile "bigpipe.json"
        anyPort {}) anyPort {} Config.ordersConfig := by
  refine ⟨Config.parseConfig_ordersFile, rfl, ?_, fun hestablished => ?_⟩
  · refine ⟨{ freshStarted Config.ordersConfig with ended := some .nullDereference }, ?_, rfl, rfl,
      rfl, rfl⟩
    rw [show ([.main, .main, .main, .main, .main, .main, .main, .main] : List Event) =
      [.main, .main, .main] ++ ([.main, .main, .main, .main] ++ [.main]) from rfl,
      System.run_append (run_freshInited Config.parseConfig_ordersFile),
      System.run_append run_freshStarted]
    rfl
  · obtain ⟨acceptor', channel, hinit, -, -⟩ := hestablished.init
    cases (init_of_fresh rfl 0).symm.trans hinit

end Bigpipe.Startup
