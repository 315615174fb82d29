import AwgMesh.Lib.Custody
import AwgMesh.Lib.Machine
import AwgMesh.Wg.Config

/-!
# The two listeners of a master

`DualListener` of `pkg/wg/dual_listener.go`: `Start` creates and configures a transport for clients
and one for the mesh, and `Close` tears both down.
-/

namespace AwgMesh.Wg

open Lib Use

inductive Protocol where
  | vanilla
  | amneziaWG
  | other (text : String)
  deriving DecidableEq

structure DualListenerConfig where
  clientInterfaceName : String := "wg-clients"
  meshInterfaceName : String := "wg-mesh"
  clientListenPort : Int64 := 51820
  meshListenPort : Int64 := 51821
  clientPrivateKey : Option Key := none
  meshPrivateKey : Option Key := none
  clientPeers : List Text.PeerConfig := []

inductive Side where
  | client
  | mesh

inductive KeyError where
  | zero
  | generate (err : String)

inductive StartError where
  | context (err : String)
  | create (side : Side) (name err : String)
  | nilTransport (side : Side) (name : String)
  | protocol (side : Side) (name : String) (got want : Protocol)
  | privateKey (side : Side) (err : KeyError)
  | configure (side : Side) (name err : String)

def listenerPrivateKey (generated : Except String Key) : Option Key → Except KeyError Key
  | some key => if key.isZero then .error .zero else .ok key
  | none => generated.mapError .generate

def clientListenerConfig (cfg : DualListenerConfig) (generated : Except String Key) :
    Except KeyError Text.Config :=
  (listenerPrivateKey generated cfg.clientPrivateKey).map fun key =>
    { privateKey := some key, listenPort := some cfg.clientListenPort, replacePeers := true,
      peers := cfg.clientPeers }

def meshListenerConfig (cfg : DualListenerConfig) (generated : Except String Key) :
    Except KeyError Text.Config :=
  (listenerPrivateKey generated cfg.meshPrivateKey).map fun key =>
    { privateKey := some key, listenPort := some cfg.meshListenPort, replacePeers := true }

/-! ## Start and Close -/

section Calls

variable {τ : Type}

structure Opening (τ : Type) where
  transport : Option τ := none
  err : Option String := none
  protocol : Protocol
  generated : Except String Key := .ok (.repeated 1)
  configureErr : Text.Config → Option String := fun _ => none

/-- What `Start` does for one of the listeners. -/
def openListener (side : Side) (name : String) (want : Protocol)
    (config : Except String Key → Except KeyError Text.Config) (answers : Opening τ) :
    List (Use τ) × Except StartError τ :=
  match answers.err, answers.transport with
  | some err, _ => ([], .error (.create side name err))
  | none, none => ([], .error (.nilTransport side name))
  | none, some t =>
    if answers.protocol ≠ want then
      ([.given t, .disposed t], .error (.protocol side name answers.protocol want))
    else match config answers.generated with
      | .error err => ([.given t, .disposed t], .error (.privateKey side err))
      | .ok cfg =>
        match answers.configureErr cfg with
        | some err => ([.given t, .disposed t], .error (.configure side name err))
        | none => ([.given t], .ok t)

structure DualListener (τ : Type) where
  cfg : DualListenerConfig
  client : Option τ := none
  mesh : Option τ := none
  started : Bool := false

/-- The answers to one `Start`. -/
structure StartAnswers (τ : Type) where
  ctxErr : Option String := none
  client : Opening τ
  mesh : Opening τ

def DualListener.start (l : DualListener τ) (answers : StartAnswers τ) :
    DualListener τ × List (Use τ) × Option StartError :=
  match answers.ctxErr with
  | some err => (l, [], some (.context err))
  | none =>
    if l.started then (l, [], none)
    else
      match openListener .client l.cfg.clientInterfaceName .vanilla (clientListenerConfig l.cfg)
          answers.client with
      | (log, .error err) => (l, log, some err)
      | (log, .ok client) =>
        match openListener .mesh l.cfg.meshInterfaceName .amneziaWG (meshListenerConfig l.cfg)
            answers.mesh with
        | (log', .error err) => (l, log ++ log' ++ [.disposed client], some err)
        | (log', .ok mesh) =>
          ({ l with client := some client, mesh := some mesh, started := true }, log ++ log', none)

structure CloseAnswers where
  meshErr : Option String := none
  clientErr : Option String := none

def closeError (side : Side) (name : String) (held : Option τ) (err : Option String) :
    List (Side × String × String) :=
  if held.isSome then err.toList.map fun err => (side, name, err) else []

def DualListener.close (l : DualListener τ) (answers : CloseAnswers) :
    DualListener τ × List (Use τ) × List (Side × String × String) :=
  ({ l with client := none, mesh := none, started := false },
    l.mesh.toList.map .disposed ++ l.client.toList.map .disposed,
    closeError .mesh l.cfg.meshInterfaceName l.mesh answers.meshErr ++
      closeError .client l.cfg.clientInterfaceName l.client answers.clientErr)

def DualListener.held (l : DualListener τ) : List τ := l.client.toList ++ l.mesh.toList

/-! ## Sequences of calls -/

inductive DualCall (τ : Type) where
  | start (answers : StartAnswers τ)
  | close (answers : CloseAnswers)

structure Watched (τ : Type) where
  listener : DualListener τ
  log : List (Use τ) := []

def dualListener (cfg : DualListenerConfig) : Machine (Watched τ) (DualCall τ) where
  init := { listener := { cfg := cfg } }
  step w
    | .start answers =>
      let (listener, log, _) := w.listener.start answers
      some { listener := listener, log := w.log ++ log }
    | .close answers =>
      let (listener, log, _) := w.listener.close answers
      some { listener := listener, log := w.log ++ log }

def DualListener.Proper (l : DualListener τ) : Prop :=
  (l.started = true ∧ ∃ client mesh, l.client = some client ∧ l.mesh = some mesh) ∨
    (l.started = false ∧ l.client = none ∧ l.mesh = none)

end Calls

/-! ## What each call does with the transports -/

section Custody

variable {τ : Type} {l : DualListener τ}

theorem openListener_balanced (side : Side) (name : String) (want : Protocol)
    (config : Except String Key → Except KeyError Text.Config) (answers : Opening τ)
    (held : List τ) :
    Balanced held (openListener side name want config answers).1
      ((openListener side name want config answers).2.toOption.toList ++ held) := by
  unfold openListener
  split
  · exact Balanced.refl held
  · exact Balanced.refl held
  · next t _ _ =>
      split
      · exact Balanced.pass t held
      · split
        · exact Balanced.pass t held
        · split
          · exact Balanced.pass t held
          · exact Balanced.keep t held

theorem held_eq_nil (hl : l.Proper) (h : l.started = false) : l.held = [] := by
  rcases hl with ⟨hstarted, -⟩ | ⟨-, hclient, hmesh⟩
  · rw [h] at hstarted
    cases hstarted
  · rw [DualListener.held, hclient, hmesh]
    rfl

theorem start_cases (hl : l.Proper) (answers : StartAnswers τ) :
    (l.start answers).1 = l ∧ Balanced l.held (l.start answers).2.1 l.held ∧
        ((l.start answers).2.2 ≠ none → answers.ctxErr = none → l.started = false) ∨
      ∃ client mesh, l.started = false ∧ (l.start answers).2.2 = none ∧ (l.start answers).1 =
          { l with client := some client, mesh := some mesh, started := true } ∧
        Balanced l.held (l.start answers).2.1 [client, mesh] := by
  unfold DualListener.start
  split
  · next err hctx =>
      exact .inl ⟨rfl, Balanced.refl _, fun _ h => absurd (hctx.symm.trans h) nofun⟩
  split
  · exact .inl ⟨rfl, Balanced.refl _, fun h => absurd rfl h⟩
  next hstarted =>
  have hstarted : l.started = false := by simpa using hstarted
  have hclient := openListener_balanced .client l.cfg.clientInterfaceName .vanilla
    (clientListenerConfig l.cfg) answers.client l.held
  split
  · next log err hopen =>
      rw [hopen] at hclient
      exact .inl ⟨rfl, hclient, fun _ _ => hstarted⟩
  · next log client hopen =>
      rw [hopen] at hclient
      have hmesh := openListener_balanced .mesh l.cfg.meshInterfaceName .amneziaWG
        (meshListenerConfig l.cfg) answers.mesh (client :: l.held)
      split
      · next log' err hopen' =>
          rw [hopen'] at hmesh
          refine .inl ⟨rfl, ?_, fun _ _ => hstarted⟩
          exact (hclient.trans hmesh).trans (Balanced.dispose client l.held)
      · next log' mesh hopen' =>
          rw [hopen'] at hmesh
          refine .inr ⟨client, mesh, hstarted, rfl, rfl, ?_⟩
          rw [held_eq_nil hl hstarted] at hclient hmesh ⊢
          exact (hclient.trans hmesh).perm (List.Perm.swap client mesh [])

theorem close_balanced (l : DualListener τ) (answers : CloseAnswers) :
    Balanced l.held (l.close answers).2.1 [] := by
  show Balanced l.held (l.mesh.toList.map .disposed ++ l.client.toList.map .disposed) []
  rw [← List.map_append]
  exact Balanced.disposeAll List.perm_append_comm

structure Watched.Settled (w : Watched τ) : Prop where
  proper : w.listener.Proper
  balanced : Balanced [] w.log w.listener.held

theorem Watched.Settled.step {cfg : DualListenerConfig} {w w' : Watched τ} {call : DualCall τ}
    (h : w.Settled) (hstep : (dualListener cfg).step w call = some w') : w'.Settled := by
  cases call with
  | start answers =>
    cases hstep
    rcases start_cases h.proper answers with
      ⟨hsame, hbalanced, -⟩ | ⟨client, mesh, -, -, hboth, hbalanced⟩
    · refine ⟨?_, ?_⟩
      · show (w.listener.start answers).1.Proper
        rw [hsame]
        exact h.proper
      · show Balanced [] (w.log ++ (w.listener.start answers).2.1)
          (w.listener.start answers).1.held
        rw [hsame]
        exact h.balanced.trans hbalanced
    · refine ⟨?_, ?_⟩
      · show (w.listener.start answers).1.Proper
        rw [hboth]
        exact .inl ⟨rfl, client, mesh, rfl, rfl⟩
      · show Balanced [] (w.log ++ (w.listener.start answers).2.1)
          (w.listener.start answers).1.held
        rw [hboth]
        exact h.balanced.trans hbalanced
  | close answers =>
    cases hstep
    exact ⟨.inr ⟨rfl, rfl, rfl⟩, h.balanced.trans (close_balanced w.listener answers)⟩

theorem settled_of_reachable {cfg : DualListenerConfig} {w : Watched τ}
    (h : (dualListener cfg).Reachable w) : w.Settled :=
  h.invariant ⟨.inr ⟨rfl, rfl, rfl⟩, Balanced.refl []⟩ Watched.Settled.step

end Custody

/-! ## All transports -/

section Runs

variable {τ : Type} [DecidableEq τ]

/-- **Transports are held or closed, once for each time they are given.** After any sequence of
calls the held transports are the two of a started listener, and a transport that was given once is
either held and not closed, or closed once. -/
theorem transports_held_or_closed_once (cfg : DualListenerConfig) (calls : List (DualCall τ))
    (w : Watched τ) (hrun : (dualListener cfg).exec (dualListener cfg).init calls = some w) :
    ((w.listener.started = true ∧ ∃ client mesh, w.listener.held = [client, mesh]) ∨
        (w.listener.started = false ∧ w.listener.held = [])) ∧ (∀ t, (givens w.log).count t =
        (disposals w.log).count t + w.listener.held.count t) ∧
      (∀ t, (givens w.log).count t = 1 →
        (t ∈ w.listener.held ∧ (disposals w.log).count t = 0) ∨
          (t ∉ w.listener.held ∧ (disposals w.log).count t = 1)) ∧
      ∀ answers err, (w.listener.start answers).2.2 = some err → if answers.ctxErr = none then
          (w.listener.start answers).1.started = false ∧ (w.listener.start answers).1.held = []
        else (w.listener.start answers).1 = w.listener := by
  have hsettled : w.Settled := settled_of_reachable ⟨calls, hrun⟩
  have hcount := count_givens hsettled.balanced
  refine ⟨?_, hcount, ?_, ?_⟩
  · rcases hsettled.proper with
      ⟨hstarted, client, mesh, hclient, hmesh⟩ | ⟨hstarted, hclient, hmesh⟩
    · exact .inl ⟨hstarted, client, mesh, by rw [DualListener.held, hclient, hmesh]; rfl⟩
    · exact .inr ⟨hstarted, by rw [DualListener.held, hclient, hmesh]; rfl⟩
  · intro t hgiven
    have hsum := hcount t
    rw [hgiven] at hsum
    by_cases hheld : t ∈ w.listener.held
    · have hpos := List.count_pos_iff.mpr hheld
      exact .inl ⟨hheld, by omega⟩
    · have hzero := List.count_eq_zero.mpr hheld
      exact .inr ⟨hheld, by omega⟩
  · intro answers err herr
    rcases start_cases hsettled.proper answers with ⟨hsame, -, hstarted⟩ | ⟨_, _, -, hnone, -⟩
    · rw [hsame]
      split
      · next hctx =>
          have hfalse := hstarted (by rw [herr]; exact nofun) hctx
          exact ⟨hfalse, held_eq_nil hsettled.proper hfalse⟩
      · rfl
    · rw [hnone] at herr
      cases herr

end Runs

def opening (t : Nat) (protocol : Protocol) : Opening Nat :=
  { transport := some t, protocol := protocol }

def goodStart (client mesh : Nat) : StartAnswers Nat where
  client := opening client .vanilla
  mesh := opening mesh .amneziaWG

def sampleCalls : List (DualCall Nat) :=
  [.start (goodStart 0 1), .close {}, .start (goodStart 2 3), .close {},
    .start { client := opening 4 .vanilla, mesh := opening 5 .vanilla }]

theorem transports_held_or_closed_once_sample :
    ∃ w : Watched Nat, (dualListener {}).exec (dualListener {}).init sampleCalls = some w ∧
      givens w.log = [0, 1, 2, 3, 4, 5] ∧ ∀ t, (givens w.log).count t =
        (disposals w.log).count t + w.listener.held.count t :=
  ⟨_, rfl, rfl, (transports_held_or_closed_once {} sampleCalls _ rfl).2.1⟩

/-- **A failing `Start` may leave the listener started**. -/
theorem failing_start_keeps_listener :
    (∃ w : Watched Nat,
      (dualListener {}).exec (dualListener {}).init [.start (goodStart 0 1)] = some w ∧
        (w.listener.start { goodStart 2 3 with ctxErr := some "context canceled" }).2.2 ≠ none ∧
        (w.listener.start { goodStart 2 3 with ctxErr := some "context canceled" }).1.started =
          true) ∧ ∃ w : Watched Nat, (dualListener {}).exec (dualListener {}).init
          [.start { goodStart 0 1 with client := { opening 0 .vanilla with err := some "busy" } }] =
            some w ∧ w.listener.held = [] ∧ disposals w.log = [] :=
  ⟨⟨_, rfl, by decide, rfl⟩, _, rfl, rfl, rfl⟩

end AwgMesh.Wg
