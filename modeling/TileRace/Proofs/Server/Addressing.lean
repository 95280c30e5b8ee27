import TileRace.Proofs.Game.Disclosure
import TileRace.Proofs.Server.Listing

namespace TileRace

namespace Lobby

/-- The connections that a game's message to a player is for: the one that it is meant for, if that
is the player's, and otherwise the player's connections that are in the game. -/
structure Addresses (l : Lobby) (m : Message) (name : String) (ks : List SocketId) : Prop where
  nodup : ks.Nodup
  meant : ∀ k, m.socket = some k → l.nameOf k = some name → ks = [k]
  present : (∀ k, m.socket = some k → l.nameOf k ≠ some name) →
    ∀ k, k ∈ ks ↔ l.nameOf k = some name ∧ l.gameOf k = m.gameId

variable {l : Lobby} {m : Message} {d : Duty} {name : String} {k : SocketId} {ks : List SocketId}

theorem nameOf_eq_some : l.nameOf k = some name ↔ ∃ g, l.guests.get? k = some g ∧ g.name = name :=
  Option.map_eq_some_iff

theorem addresses_targets (l : Lobby) (name : String) (m : Message) :
    l.Addresses m name (l.targets name m) := by
  have hany (k : SocketId) :
      ((l.guests.get? k).any (·.name = name)) = true ↔ l.nameOf k = some name := by
    rw [nameOf_eq_some, Option.any_eq_true]
    simp only [decide_eq_true_eq]
  refine ⟨(l.targets_spec name m).1, fun k hk hname => ?_, fun hnone k => ?_⟩
  · have hfilter : (m.socket.filter fun s => (l.guests.get? s).any (·.name = name)) = some k :=
      Option.filter_eq_some_iff.2 ⟨hk, (hany k).2 hname⟩
    rw [targets, hfilter]
  · have hfilter : (m.socket.filter fun s => (l.guests.get? s).any (·.name = name)) = none := by
      refine Option.filter_eq_none_iff.2 fun k hk hname => ?_
      exact hnone k hk ((hany k).1 hname)
    rw [targets, hfilter, mem_keys_filter, nameOf_eq_some]
    constructor
    · rintro ⟨g, hg, hp⟩
      obtain ⟨hname, hgame⟩ := of_decide_eq_true hp
      exact ⟨⟨g, hg, hname⟩, by rw [gameOf, hg]; exact hgame⟩
    · rintro ⟨⟨g, hg, hname⟩, hgame⟩
      rw [gameOf, hg] at hgame
      exact ⟨g, hg, decide_eq_true ⟨hname, hgame⟩⟩

theorem Addresses.named (h : l.Addresses m name ks) (hk : k ∈ ks) : l.nameOf k = some name := by
  by_cases hm : ∃ p, m.socket = some p ∧ l.nameOf p = some name
  · obtain ⟨p, hp, hname⟩ := hm
    rw [h.meant p hp hname] at hk
    rwa [List.mem_singleton.1 hk]
  · exact ((h.present (fun p hp hname => hm ⟨p, hp, hname⟩) k).1 hk).1

theorem discreet_infosMessage (l : Lobby) : l.infosMessage.Discreet := ⟨rfl, rfl, rfl⟩

theorem discreet_refusal (m : Message) (e : RegistryError) : (refusal m e).Discreet :=
  ⟨rfl, rfl, rfl⟩

theorem discreet_forward {socket : SocketId} (hd : d ∈ l.forward socket m) :
    d.message.Discreet := by
  rw [forward] at hd
  split at hd <;> rw [List.mem_singleton.1 hd] <;> exact discreet_refusal _ _

theorem discreet_receive {now : Nat} (hd : d ∈ (l.receive now m).2) : d.message.Discreet := by
  cases hs : m.socket with
  | none =>
    simp only [receive, hs] at hd
    cases hd
  | some socket =>
    simp only [receive, hs] at hd
    cases hk : m.kind <;> simp only [hk] at hd
    case createGame =>
      rw [create] at hd
      split at hd <;> rw [List.mem_singleton.1 hd] <;> exact discreet_refusal _ _
    case gameInfos =>
      rw [List.mem_singleton.1 hd]
      exact l.discreet_infosMessage
    case joinGame | deleteGame | changeGameStatus | snagGameTile | swapGameTile | moveGameTiles |
        gameChat | refreshGameBoard => exact discreet_forward hd
    all_goals
      rw [List.mem_singleton.1 hd]
      exact ⟨rfl, rfl, rfl⟩

theorem discreet_broadcastInfos (hd : d ∈ l.broadcastInfos) : d.message.Discreet := by
  obtain ⟨k, -, rfl⟩ := List.mem_map.1 hd
  exact l.discreet_infosMessage

theorem mem_report (hd : d ∈ (l.report m).2) : d.message.Discreet ∨
    ∃ k name, d = .tell k m ∧ m.player = some name ∧ l.nameOf k = some name := by
  rw [report] at hd
  split at hd
  · split at hd
    · cases hd
    · exact .inl (discreet_broadcastInfos hd)
  · split at hd
    · cases hd
    · obtain hd | hd := List.mem_append.1 hd
      · obtain ⟨k, -, rfl⟩ := List.mem_map.1 hd
        exact .inl ⟨rfl, rfl, rfl⟩
      · exact .inl (discreet_broadcastInfos hd)
  · rw [route] at hd
    split at hd
    · cases hd
    · rename_i name hname
      obtain ⟨k, hk, rfl⟩ := List.mem_map.1 hd
      exact .inr ⟨k, name, rfl, hname, (l.addresses_targets name m).named hk⟩

theorem report_eq_route (hinfo : m.kind ≠ .gameInfoChanged) (hdel : m.kind ≠ .gameDeleted)
    (hname : m.player = some name) : (l.report m).2 = (l.targets name m).map (.tell · m) := by
  rw [report]
  split
  · exact (hinfo ‹_›).elim
  · exact (hdel ‹_›).elim
  · rw [route, hname]

variable {l' : Lobby} {ds ds' : List Duty} {deed : Option Deed}

theorem Step.register (h : l.Step ds deed l' ds') (hne : ds ≠ []) : l'.register = l.register := by
  cases h with
  | rest | tell | pass | answer | play | cancel => rfl
  | enroll free | hear now free | forget socket free | route free => exact (hne free).elim

/-- Where a duty comes from. What has to do with a board was said by a game, and is for a player. -/
inductive Owes (l : Lobby) (ds : List Duty) (l' : Lobby) (d : Duty) : Prop where
  | kept (mem : d ∈ ds) (register : l'.register = l.register)
  | own (discreet : d.message.Discreet)
  | routed {n k m name} (reported : m ∈ l.games.underway n) (duty : d = .tell k m)
    (player : m.player = some name) (named : l'.nameOf k = some name)

theorem Step.owes (h : l.Step ds deed l' ds') (hd : d ∈ ds') : l.Owes ds l' d := by
  have hkept (hd : d ∈ ds) : l.Owes ds l' d := .kept hd (h.register (List.ne_nil_of_mem hd))
  cases h with
  | rest | play | cancel => exact hkept hd
  | tell | pass | answer => exact hkept (List.mem_cons_of_mem _ hd)
  | enroll free hok =>
    rw [(enroll_eq_ok hok).2.1] at hd
    rw [List.mem_singleton.1 hd]
    exact .own (discreet_infosMessage _)
  | hear now free => exact .own (discreet_receive hd)
  | forget socket free =>
    rw [free] at hd
    cases hd
  | @route n m games _ free hm =>
    obtain hown | ⟨k, name, hduty, hplayer, hnamed⟩ := mem_report hd
    · exact .own hown
    · have hmem : m ∈ l.games.underway n :=
        (Registry.takeReport_eq_some hm).head ▸ List.mem_cons_self
      refine .routed hmem hduty hplayer ?_
      rw [nameOf_eq] at hnamed ⊢
      exact (congrArg (·.names.get? k) (register_report _ m)).trans hnamed

end Lobby

namespace Server

variable {s s' : Server} {mv : Move} {mvs : List Move}

def tellings (deeds : List Deed) : List (SocketId × Message) := deeds.filterMap fun
  | .tell k m => some (k, m)
  | _ => none

theorem tellings_append (ds ds' : List Deed) : tellings (ds ++ ds') = tellings ds ++ tellings ds' :=
  List.filterMap_append ..

theorem tells_next {k : SocketId} {m : Message} {ds : List Duty}
    (hds : s.duties = .tell k m :: ds) (h : s.move mv = some s') :
    s.deed? mv = none ∧ s'.duties = s.duties ∨
      s.deed? mv = some (.tell k m) ∧ s'.duties = ds := by
  have hstep := move_step h
  rw [hds] at hstep ⊢
  generalize s.deed? mv = d, s'.lobby = l', s'.duties = ds' at hstep
  cases hstep with
  | rest | play | cancel => exact .inl ⟨rfl, rfl⟩
  | tell => exact .inr ⟨rfl, rfl⟩
  | enroll free | hear now free | forget socket free | route free => cases free

theorem tellings_run {ds : List (SocketId × Message)}
    (hds : s.duties = ds.map fun d => .tell d.1 d.2) (hrun : s.run mvs = some s') :
    ds <+: tellings (s.deeds mvs) ∨ tellings (s.deeds mvs) <+: ds := by
  induction mvs generalizing s ds with
  | nil => exact .inr List.nil_prefix
  | cons mv mvs ih =>
    obtain ⟨t, ht, hrun⟩ := run_cons.1 hrun
    cases ds with
    | nil => exact .inl List.nil_prefix
    | cons d ds =>
      rw [deeds_cons ht, tellings_append]
      obtain ⟨hdeed, hsame⟩ | ⟨hdeed, hnext⟩ := tells_next hds ht
      · rw [hdeed]
        exact ih (hsame.trans hds) hrun
      · rw [hdeed]
        exact (ih hnext hrun).imp (List.prefix_cons_inj d).2 (List.prefix_cons_inj d).2

end Server

end TileRace
