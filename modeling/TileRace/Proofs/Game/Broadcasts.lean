import TileRace.Proofs.Game.Dealing
import TileRace.Proofs.Game.Final

namespace TileRace

def Kind.broadcast? : Kind → Option Kind
  | .deleteGame => some .leaveGame
  | .changeGameStatus => some .changeGameStatus
  | .snagGameTile => some .snagGameTile
  | .swapGameTile => some .swapGameTile
  | .gameChat => some .gameChat
  | _ => none

def Kind.broadcasts : List Kind :=
  [.leaveGame, .changeGameStatus, .snagGameTile, .swapGameTile, .gameChat]

def broadcasts (out : List Message) : List Message := out.filter (·.kind ∈ Kind.broadcasts)

namespace Game

variable {g : Game} {m o : Message} {name : String} {k : Kind} {t : Turn} {out : List Message}
  {socket : Option SocketId}

/-- Messages of one kind of a game, one for each player, of which only that for a certain player may
be for a certain socket. -/
structure Addressed (g : Game) (k : Kind) (name : String) (socket : Option SocketId)
    (out : List Message) : Prop where
  once : (out.map (·.player)).Perm (g.players.map some)
  kind : ∀ o ∈ out, o.kind = k
  gameId : ∀ o ∈ out, o.gameId = some g.id
  pinned : ∀ o ∈ out, o.socket = if o.player = some name then socket else none

theorem forall_mem_toAll {f : String → Message → Message} {P : Message → Prop}
    (h : ∀ x, P (f x (g.toPlayer k x none))) : ∀ o ∈ g.toAll k f, P o := by
  intro o ho
  obtain ⟨x, -, rfl⟩ := mem_toAll.1 ho
  exact h x

def SameAddress (o o' : Message) : Prop :=
  o.player = o'.player ∧ o.kind = o'.kind ∧ o.gameId = o'.gameId ∧ o.socket = o'.socket

theorem addressed_toAll {f : String → Message → Message} (hf : ∀ x n, SameAddress (f x n) n) :
    g.Addressed k name none (g.toAll k f) where
  once := by
    rw [toAll, List.map_map]
    exact .of_eq (List.map_congr_left fun x _ => (hf x _).1)
  kind := forall_mem_toAll fun x => (hf x _).2.1
  gameId := forall_mem_toAll fun x => (hf x _).2.2.1
  pinned := forall_mem_toAll fun x => (hf x _).2.2.2.trans (ite_self _).symm

theorem addressed_swapped (h : name ∈ g.players) (tile : Tile) (drawn : List Tile) :
    g.Addressed .swapGameTile name socket (g.swapped name tile drawn socket).out where
  once := by
    rw [swapped, List.map_cons, List.map_map]
    exact (perm_cons_others h).map some
  kind o ho := by
    obtain rfl | ho := List.mem_cons.1 ho
    · rfl
    · obtain ⟨x, -, rfl⟩ := List.mem_map.1 ho
      rfl
  gameId o ho := by
    obtain rfl | ho := List.mem_cons.1 ho
    · rfl
    · obtain ⟨x, -, rfl⟩ := List.mem_map.1 ho
      rfl
  pinned o ho := by
    obtain rfl | ho := List.mem_cons.1 ho
    · exact (if_pos rfl).symm
    · obtain ⟨x, hx, rfl⟩ := List.mem_map.1 ho
      exact (if_neg fun he => not_mem_others (Option.some.inj he ▸ hx)).symm

theorem Addressed.broadcasts_eq (h : g.Addressed k name socket out) (hk : k ∈ Kind.broadcasts) :
    broadcasts out = out ∧ ∀ g' : Game, broadcasts (out ++ [g'.infoChanged]) = out := by
  have hall : broadcasts out = out :=
    List.filter_eq_self.2 fun o ho => decide_eq_true (h.kind o ho ▸ hk)
  refine ⟨hall, fun g' => ?_⟩
  rw [broadcasts, List.filter_append, ← broadcasts, hall]
  exact List.append_nil out

/-- What the messages to everybody say, by their kind: the game as it is now, and the final boards
when it is over; how many tiles are left in the pool; what was said. -/
inductive Conveys (m : Message) (name : String) (t : Turn) (out : List Message) : Kind → Prop where
  | left : Conveys m name t out .leaveGame
  | status (text : String) (said : ∀ o ∈ out, o.info = some text)
    (game : ∀ o ∈ out, o.game = some t.game.summary)
    (final : t.game.status.isFinished → ∃ boards : Table String (List Placement),
      boards.keys = t.game.players ∧
      (∀ x b, t.game.board? x = some b → boards.get? x = some b.placed) ∧
      ∀ o ∈ out, o.finalBoards = some boards) : Conveys m name t out .changeGameStatus
  | tiles {k : Kind} (n : UInt64) (kind : k = .snagGameTile ∨ k = .swapGameTile)
    (count : n.toNat = t.game.pool.length) (left : ∀ o ∈ out, o.tilesLeft = some n) :
    Conveys m name t out k
  | chat (text : List Char) (trim : Text.trim (m.info.getD "").toList = text) (nonempty : text ≠ [])
    (said : ∀ o ∈ out, o.info = some s!"{name}: {String.ofList text}") :
    Conveys m name t out .gameChat

/-- Every player of the game hears once of a request, and all hear the same of the game. -/
structure Broadcasts (g : Game) (m : Message) (name : String) (k : Kind) (t : Turn) : Prop where
  game : t.game.id = g.id ∧ t.game.players = g.players
  addressed : t.game.Addressed k name (if k = .swapGameTile then m.socket else none)
    (broadcasts t.out)
  conveys : Conveys m name t (broadcasts t.out) k

theorem Addressed.announces (h : t.game.Addressed k name socket out) (hk : k ∈ Kind.broadcasts)
    (hout : t.out = out ∨ t.out = out ++ [t.game.infoChanged])
    (hsocket : socket = if k = .swapGameTile then m.socket else none)
    (hgame : t.game.id = g.id ∧ t.game.players = g.players) (hconveys : Conveys m name t out k) :
    g.Broadcasts m name k t := by
  obtain ⟨hall, hnews⟩ := h.broadcasts_eq hk
  have hbroadcasts : broadcasts t.out = out := by
    obtain hout | hout := hout
    · rw [hout, hall]
    · rw [hout, hnews]
  refine ⟨hgame, ?_, ?_⟩
  · rw [hbroadcasts, ← hsocket]
    exact h
  · rwa [hbroadcasts]

theorem announces_toAll {g' : Game} {f : String → Message → Message} {keep : Bool}
    {award : Option Award} (hk : k ∈ Kind.broadcasts) (hne : k ≠ .swapGameTile)
    (hf : ∀ x n, SameAddress (f x n) n) (hgame : g'.id = g.id ∧ g'.players = g.players)
    (hconveys : Conveys m name ⟨g', g'.toAll k f, keep, award⟩ (g'.toAll k f) k) :
    g.Broadcasts m name k ⟨g', g'.toAll k f, keep, award⟩ := by
  have h : g'.Addressed k name none (g'.toAll k f) := addressed_toAll hf
  exact Addressed.announces (t := ⟨g', g'.toAll k f, keep, award⟩) h hk (.inl rfl)
    (if_neg hne).symm hgame hconveys

theorem announces_delete (reason : String) :
    g.Broadcasts m name .leaveGame { game := g, out := g.leaveAll reason, keep := false } :=
  announces_toAll (by decide) (by decide) (fun _ _ => ⟨rfl, rfl, rfl, rfl⟩) ⟨rfl, rfl⟩ .left

theorem announces_status {f : String → Message → Message}
    (hout : t.out = t.game.toAll .changeGameStatus f ++ [t.game.infoChanged])
    (hf : ∀ x n, SameAddress (f x n) n) (hgame : t.game.id = g.id ∧ t.game.players = g.players)
    (hconveys : Conveys m name t (t.game.toAll .changeGameStatus f) .changeGameStatus) :
    g.Broadcasts m name .changeGameStatus t :=
  (addressed_toAll hf).announces (by decide) (.inr hout) rfl hgame hconveys

theorem announces_start : g.Broadcasts m name .changeGameStatus (g.start name) := by
  refine announces_status rfl (fun _ _ => ⟨rfl, rfl, rfl, rfl⟩) ⟨rfl, rfl⟩
    (.status _ (forall_mem_toAll fun _ => rfl) (forall_mem_toAll fun _ => rfl) ?_)
  rintro ⟨⟩

theorem announces_won (seat : Seat) (status : Status) :
    g.Broadcasts m name .changeGameStatus (g.won name seat status) := by
  refine announces_status rfl (fun _ _ => ⟨rfl, rfl, rfl, rfl⟩) ⟨rfl, rfl⟩
    (.status _ (forall_mem_toAll fun _ => rfl) (forall_mem_toAll fun _ => rfl) fun _ => ?_)
  exact ⟨(g.won name seat status).game.finalBoards, Table.keys_map _ _, fun _ _ => get?_finalBoards,
    forall_mem_toAll fun _ => rfl⟩

theorem announces_snag {g' : Game} (hg' : g'.Sound) (hgame : g'.id = g.id ∧ g'.players = g.players)
    (dealt : List (String × Tile)) :
    g.Broadcasts m name .snagGameTile (g'.snagged name dealt) :=
  announces_toAll (by decide) (by decide) (fun _ _ => ⟨rfl, rfl, rfl, rfl⟩) hgame
    (.tiles _ (.inl rfl) hg'.toNat_poolSize (forall_mem_toAll fun _ => rfl))

theorem announces_swap {g' : Game} (hg' : g'.Sound) (hgame : g'.id = g.id ∧ g'.players = g.players)
    (h : name ∈ g.players) (tile : Tile) (drawn : List Tile) :
    g.Broadcasts m name .swapGameTile (g'.swapped name tile drawn m.socket) := by
  refine (addressed_swapped (hgame.2 ▸ h) tile drawn).announces (by decide) (.inl rfl) rfl hgame
    (.tiles _ (.inr rfl) hg'.toNat_poolSize fun o ho => ?_)
  obtain rfl | ho := List.mem_cons.1 ho
  · rfl
  · obtain ⟨x, -, rfl⟩ := List.mem_map.1 ho
    rfl

theorem announces_chat {text : List Char} (htrim : Text.trim (m.info.getD "").toList = text)
    (hne : text ≠ []) : g.Broadcasts m name .gameChat
      { game := g
        out := g.toAll .gameChat fun _ n => n.withInfo s!"{name}: {String.ofList text}" } :=
  announces_toAll (by decide) (by decide) (fun _ _ => ⟨rfl, rfl, rfl, rfl⟩) ⟨rfl, rfl⟩
    (.chat text htrim hne (forall_mem_toAll fun _ => rfl))

theorem Asks.broadcast {k' : Kind} {seat : Seat} (asks : g.Asks m k' name seat)
    (hk : m.kind.broadcast? = some k) : k'.broadcast? = some k := asks.kind ▸ hk

theorem Sound.announces (hg : g.Sound) (h : g.Accepted m t) (hk : m.kind.broadcast? = some k) :
    ∃ name ∈ g.players, m.player = some name ∧ g.Broadcasts m name k t := by
  have ht := hg.accepted h
  cases h with
  | joined kind =>
    rw [kind] at hk
    cases hk
  | returned asks | moved asks | refreshed asks | resized asks => cases asks.broadcast hk
  | deleted asks =>
    cases asks.broadcast hk
    exact ⟨_, asks.mem_players, asks.player, announces_delete _⟩
  | started asks =>
    cases asks.broadcast hk
    exact ⟨_, asks.mem_players, asks.player, announces_start⟩
  | won asks =>
    cases asks.broadcast hk
    exact ⟨_, asks.mem_players, asks.player, announces_won _ _⟩
  | @snagged name seat g' dealt asks now pool check deal =>
    cases asks.broadcast hk
    have hdealt := (hg.of_deal asks.seat deal).2
    have hid : g'.id = g.id := by rw [hdealt.rest]
    exact ⟨name, asks.mem_players, asks.player, announces_snag ht ⟨hid, hdealt.players⟩ dealt⟩
  | @swapped name seat tile board g' asks now offer pool remove give =>
    cases asks.broadcast hk
    obtain ⟨c, -, -, -, hgame⟩ := hg.of_give asks.seat remove (Shuffler.shuffle_perm _ _) give
    have hid : g'.id = g.id := by
      rw [hgame]
      rfl
    have hplayers : g'.players = g.players := hgame ▸ players_setBoard _ _ _
    exact ⟨name, asks.mem_players, asks.player,
      announces_swap ht ⟨hid, hplayers⟩ asks.mem_players tile _⟩
  | chatted asks said nonempty =>
    cases asks.broadcast hk
    exact ⟨_, asks.mem_players, asks.player, announces_chat said nonempty⟩

/-- Every request that is for everybody reaches every player once when it is carried out, and tells
all of them the same of the game that it leads to. -/
theorem broadcasts_reach_all (hg : g.Reachable) (hk : m.kind.broadcast? = some k)
    (h : g.respond m = .ok t) : g.players.Nodup ∧
    ∃ name ∈ g.players, m.player = some name ∧ g.Broadcasts m name k (g.handle m) := by
  rw [handle, h]
  exact ⟨g.seats.keys_nodup, hg.sound.announces (respond_ok h) hk⟩

def exchange : Message :=
  { kind := .swapGameTile, player := some "bob", tiles := some [⟨3, 'C'⟩], socket := some 7 }

theorem broadcasts_reach_all_exchange : ∃ g : Game, g.Reachable ∧
    g.Broadcasts exchange "bob" .swapGameTile (g.handle exchange) ∧
    (g.handle exchange).out.map (·.player) = [some "bob", some "ann", some "carol"] ∧
    (g.handle exchange).out.map (·.socket) = [some 7, none, none] ∧
    (g.handle exchange).out.map (·.tilesLeft) = [some 0, some 0, some 0] := by
  have hn : ("ABCDEFGH".toList.filter Char.isAlpha).length < UInt32.size - 1 := by decide
  have h : setUp 1 { letters := "ABCDEFGH", handSize := 2 } ⟨false, false, 2, true⟩ .standard
    ⟨[]⟩ 0 = .ok _ := rfl
  have hg := (Reachable.setUp hn h).play gathering
  obtain ⟨-, name, -, hname, hbroadcasts⟩ := broadcasts_reach_all (m := exchange) hg rfl rfl
  obtain rfl : "bob" = name := Option.some.inj hname
  exact ⟨_, hg, hbroadcasts, rfl, rfl, rfl⟩

end Game

end TileRace
