import TileRace.Proofs.Game.Joining
import TileRace.Proofs.Registry.Ids

namespace TileRace

/-- What is wrong with the settings first. -/
inductive Settings.Faulty (settings : Settings) : SetupError → Prop where
  | noPlayers (players : settings.maxPlayers = 0) : Faulty settings .noPlayers
  | noStartingTiles (players : settings.maxPlayers ≠ 0) (hand : settings.handSize = 0) :
    Faulty settings .noStartingTiles
  | noPrize (players : settings.maxPlayers ≠ 0) (hand : settings.handSize ≠ 0)
    (prize : settings.prize = 0) : Faulty settings .noPrize
  | notEnoughTiles (players : settings.maxPlayers ≠ 0) (hand : settings.handSize ≠ 0)
    (prize : settings.prize ≠ 0)
    (few : (Tile.ofLetters settings.letters).length < settings.handSize.toNat) :
    Faulty settings
      (.notEnoughTiles settings.handSize (Tile.ofLetters settings.letters).length)

theorem Game.setUp_eq_error {id : GameId} {settings : Settings} {rules : Rules} {grid : Grid}
    {words : Dictionary} {createdAt : UInt64} {e : SetupError} :
    setUp id settings rules grid words createdAt = .error e ↔ settings.Faulty e := by
  rw [setUp]
  constructor
  · intro h
    split_ifs at h with hplayers hhand hprize hfew <;> cases h
    · exact .noPlayers hplayers
    · exact .noStartingTiles hplayers hhand
    · exact .noPrize hplayers hhand hprize
    · exact .notEnoughTiles hplayers hhand hprize hfew
  · intro h
    cases h <;> simp [*]

theorem Grid.isValid_iff {grid : Grid} :
    grid.isValid ↔ ¬ (grid.rows = 0 ∨ grid.columns = 0) := by
  rw [Grid.isValid, Bool.and_eq_true, decide_eq_true_iff, decide_eq_true_iff, not_or,
    UInt64.pos_iff_ne_zero, UInt64.pos_iff_ne_zero]

namespace Registry

variable {r : Registry} {m : Message} {e : RegistryError} {now : Nat}

/-- What is wrong with a request for a game first. -/
inductive Spoils (r : Registry) (m : Message) : RegistryError → Prop where
  | atCapacity (full : r.maxGames.toNat ≤ r.size) : Spoils r m (.atCapacity r.maxGames)
  | missingGrid (room : r.size < r.maxGames.toNat) (grid : m.grid = none) :
    Spoils r m .missingGrid
  | emptyGrid {grid : Grid} (room : r.size < r.maxGames.toNat) (asked : m.grid = some grid)
    (empty : grid.rows = 0 ∨ grid.columns = 0) : Spoils r m .emptyGrid
  | missingRules {grid : Grid} (room : r.size < r.maxGames.toNat) (asked : m.grid = some grid)
    (cells : ¬ (grid.rows = 0 ∨ grid.columns = 0)) (rules : m.rules = none) :
    Spoils r m .missingRules
  | setup {grid : Grid} {rules : Rules} {fault : SetupError} (room : r.size < r.maxGames.toNat)
    (asked : m.grid = some grid) (cells : ¬ (grid.rows = 0 ∨ grid.columns = 0))
    (given : m.rules = some rules) (faulty : r.settings.Faulty fault) :
    Spoils r m (.setup fault)

theorem spoils_of_create (h : r.create now m = .error e) : r.Spoils m e := by
  simp only [create] at h
  split at h
  · rename_i hfull
    cases h
    exact .atCapacity (of_decide_eq_true hfull)
  rename_i hfull
  have hroom : r.size < r.maxGames.toNat := isFull_eq_false_iff.1 (Bool.not_eq_true _ ▸ hfull)
  split at h
  · rename_i hgrid
    cases h
    exact .missingGrid hroom hgrid
  rename_i grid hgrid
  split at h
  · rename_i hempty
    cases h
    refine .emptyGrid hroom hgrid (not_not.1 fun hcells => ?_)
    simp [Grid.isValid_iff.2 hcells] at hempty
  rename_i hvalid
  have hcells := Grid.isValid_iff.1 (by simpa using hvalid)
  split at h
  · rename_i hrules
    cases h
    exact .missingRules hroom hgrid hcells hrules
  rename_i rules hrules
  obtain h | ⟨_, -, h⟩ := bind_eq_error.1 h
  · obtain ⟨fault, hfault, rfl⟩ := mapError_eq_error.1 h
    exact .setup hroom hgrid hcells hrules (Game.setUp_eq_error.1 hfault)
  · cases h

theorem Spoils.create (h : r.Spoils m e) (now : Nat) : r.create now m = .error e := by
  cases h with
  | atCapacity full => exact create_eq_atCapacity.2 ⟨rfl, decide_eq_true full⟩
  | missingGrid room grid =>
    simp only [Registry.create, isFull_eq_false_iff.2 room, grid]
    rfl
  | emptyGrid room asked empty =>
    have hinvalid := Bool.not_eq_true _ ▸ mt Grid.isValid_iff.1 (not_not.2 empty)
    simp only [Registry.create, isFull_eq_false_iff.2 room, asked, hinvalid]
    rfl
  | missingRules room asked cells rules =>
    simp only [Registry.create, isFull_eq_false_iff.2 room, asked, Grid.isValid_iff.2 cells, rules]
    rfl
  | setup room asked cells given faulty =>
    simp only [Registry.create, isFull_eq_false_iff.2 room, asked, Grid.isValid_iff.2 cells, given,
      Game.setUp_eq_error.2 faulty]
    rfl

theorem create_eq_error : r.create now m = .error e ↔ r.Spoils m e :=
  ⟨spoils_of_create, fun h => h.create now⟩

theorem create_eq_of_valid {grid : Grid} {rules : Rules} {g : Game}
    (room : r.isFull = false) (asked : m.grid = some grid) (valid : grid.isValid)
    (given : m.rules = some rules)
    (founds : Game.setUp r.nextId r.settings rules grid r.words
      (UInt64.ofNat (now / Time.millisecond)) = .ok g) :
    r.create now m = .ok {
      id := r.nextId
      session := r.started
      join := m.joining r.nextId
      registry := { r with
        rooms := r.rooms.insert r.nextId r.started
        sessions := r.sessions.insert r.started { Session.start g now with cancelled := r.cancelled }
        places := r.places ++ [r.started]
        started := r.started + 1 } } := by
  simp only [Registry.create, room, asked, valid, given, founds, Message.joining]
  rfl

theorem exists_create (h : ∀ e, ¬ r.Spoils m e) (now : Nat) : ∃ grid rules g,
    r.isFull = false ∧ m.grid = some grid ∧ grid.isValid ∧ m.rules = some rules ∧
    Game.setUp r.nextId r.settings rules grid r.words
      (UInt64.ofNat (now / Time.millisecond)) = .ok g := by
  have hroom : r.size < r.maxGames.toNat := Nat.not_le.1 fun hfull => h _ (.atCapacity hfull)
  cases hgrid : m.grid with
  | none => exact (h _ (.missingGrid hroom hgrid)).elim
  | some grid =>
    have hcells : ¬ (grid.rows = 0 ∨ grid.columns = 0) := fun hempty =>
      h _ (.emptyGrid hroom hgrid hempty)
    cases hrules : m.rules with
    | none => exact (h _ (.missingRules hroom hgrid hcells hrules)).elim
    | some rules =>
      cases hgame : Game.setUp r.nextId r.settings rules grid r.words
          (UInt64.ofNat (now / Time.millisecond)) with
      | error fault =>
        exact (h _ (.setup hroom hgrid hcells hrules (Game.setUp_eq_error.1 hgame))).elim
      | ok g =>
        exact ⟨grid, rules, g, isFull_eq_false_iff.2 hroom, rfl, Grid.isValid_iff.2 hcells, rfl, hgame⟩

end Registry

/-- The player who asked for a game is seated at it first, with a hand, on the grid and the socket of
the request, and then it is told that nobody else is. -/
inductive Greets (settings : Settings) (id : GameId) (m : Message) (name : String) :
    List Message → Prop where
  | intro {welcome news : Message} {tiles : List Tile} {rest : List Message}
    (kind : welcome.kind = .joinGame) (player : welcome.player = some name)
    (socket : welcome.socket = m.socket) (named : welcome.gameId = some id)
    (grid : welcome.grid = m.grid) (hand : welcome.tiles = some tiles)
    (count : tiles.length = settings.handSize.toNat)
    (left : welcome.tilesLeft = some (UInt64.ofNat
      ((Tile.ofLetters settings.letters).length - settings.handSize.toNat)))
    (change : news.kind = .gameInfoChanged) (about : news.gameId = some id)
    (alone : news.game.map (·.players) = some [name]) :
    Greets settings id m name (welcome :: news :: rest)

section

variable {settings : Settings} {id : GameId} {m : Message} {name : String} {said : List Message}

theorem Greets.append (h : Greets settings id m name said) (more : List Message) :
    Greets settings id m name (said ++ more) := by
  cases h with
  | intro kind player socket named grid hand count left change about alone =>
    exact .intro kind player socket named grid hand count left change about alone

theorem Game.setUp_open {rules : Rules} {grid : Grid} {words : Dictionary} {createdAt : UInt64}
    {g : Game} (h : setUp id settings rules grid words createdAt = .ok g) :
    ¬ g.Shut ∧ settings.handSize.toNat ≤ (Tile.ofLetters settings.letters).length := by
  have hsound (e : SetupError) : ¬ settings.Faulty e := fun he => by
    rw [setUp_eq_error.2 he] at h
    cases h
  have hplayers : settings.maxPlayers ≠ 0 := fun h => hsound _ (.noPlayers h)
  have hhand : settings.handSize ≠ 0 := fun h => hsound _ (.noStartingTiles hplayers h)
  have hprize : settings.prize ≠ 0 := fun h => hsound _ (.noPrize hplayers hhand h)
  have henough := Nat.not_lt.1 fun h => hsound _ (.notEnoughTiles hplayers hhand hprize h)
  obtain rfl := setUp_eq_ok h
  refine ⟨?_, henough⟩
  rintro (hstatus | hfull | hfew)
  · exact hstatus rfl
  · exact hplayers (UInt64.toNat_inj.1 (Nat.le_zero.1 hfull))
  · rw [(Shuffler.shuffle_perm _ _).length_eq] at hfew
    exact Nat.not_lt.2 henough hfew

theorem Game.greets_first {rules : Rules} {grid : Grid} {words : Dictionary} {createdAt : UInt64}
    {g : Game} (hn : (settings.letters.toList.filter Char.isAlpha).length < UInt32.size - 1)
    (h : setUp id settings rules grid words createdAt = .ok g) (asked : m.grid = some grid)
    (valid : grid.isValid) (hp : m.player = some name) :
    Greets settings id m name (g.handle (m.joining id)).out := by
  obtain ⟨hopen, henough⟩ := setUp_open h
  have hjoins := (Sound.setUp hn h).joins (m := m.joining id) rfl hp
  obtain rfl := setUp_eq_ok h
  generalize hturn : Game.handle _ (m.joining id) = t at hjoins
  cases hjoins with
  | returns seated => cases seated
  | turnedAway absent shut => exact (hopen shut).elim
  | enters b absent isOpen hand placed hgrid =>
    have hpool := (Shuffler.shuffle_perm (settings.shuffle.shuffler id)
      (Tile.ofLetters settings.letters)).length_eq
    have hothers : ((Table.empty.insert name (⟨b, settings.prize⟩ : Seat)).keys.filter
        (· ≠ name)) = [] := by
      have hkeys : (Table.empty.insert name (⟨b, settings.prize⟩ : Seat)).keys = [name] := rfl
      simp [hkeys]
    have hboard : b.grid = grid := by
      rw [hgrid, Message.joining, asked, Option.filter_some, if_pos valid]
      rfl
    simp only [Game.joined, Game.others, Game.players, hothers, List.map_nil, List.cons_append,
      List.nil_append]
    refine .intro rfl rfl rfl rfl ?_ rfl ?_ ?_ rfl rfl rfl
    · exact (congrArg some hboard).trans asked.symm
    · rw [hand, List.length_take, hpool]
      exact Nat.min_eq_left henough
    · change some (UInt64.ofNat (List.drop _ _).length) = _
      rw [List.length_drop, hpool]

end

/-- A session that was opened with a game waits for the join of the player who asked for it, or has
handled it first, or has ended before. -/
inductive Thread.Begins (settings : Settings) (deadline : Nat) (id : GameId) (m : Message)
    (name : String) (t : Thread) : Prop where
  | fresh {s : Session} (live : t.session = some s) (runs : s.failed = false)
    (due : s.deadline = deadline)
    (greets : Greets settings id m name (s.game.handle (m.joining id)).out)
    (unheard : t.handled = []) (silent : t.said = [])
    (next : t.waiting = [m.joining id] ∧ s.inbox = [] ∨ s.inbox.head? = some (m.joining id))
  | seated (first : t.handled.head? = some (m.joining id))
    (greets : Greets settings id m name t.said)
  | lost (ended : t.session = none) (unheard : t.handled = []) (said : t.said ≠ [])

section

variable {settings : Settings} {deadline capacity : Nat} {id : GameId} {m : Message}
  {name : String} {t t' : Thread}

theorem Thread.Begins.play {s : Session} {now : Nat} {a : Session.Act} {result : Session.Result}
    (h : t.Begins settings deadline id m name) (live : t.session = some s)
    (act : s.act now a = some result) :
    ({ t with
        session := result.session
        handled := t.handled ++ s.takes a
        said := t.said ++ result.out } : Thread).Begins settings deadline id m name := by
  cases h with
  | @fresh s' live' runs due greets unheard silent next =>
    obtain rfl := Option.some.inj (live.symm.trans live')
    have hfirst {m' : Message} {rest : List Message} (hinbox : s.inbox = m' :: rest) :
        m' = m.joining id := by
      rcases next with ⟨-, hnil⟩ | hhead
      · cases hnil.symm.trans hinbox
      · simpa [hinbox] using hhead
    cases Session.acts_act act with
    | handled handles hinbox keep lasts session out
    | failed handles hinbox late session out =>
      subst handles
      obtain rfl := hfirst hinbox
      refine .seated ?_ ?_
      · simp [unheard, Session.takes, hinbox]
      · rw [silent, out, List.nil_append]
        exact greets
    | ended session ends out =>
      have hlost (htakes : s.takes a = []) : Thread.Begins settings deadline id m name { t with
          session := result.session
          handled := t.handled ++ s.takes a
          said := t.said ++ result.out } := by
        refine .lost session ?_ ?_
        · rw [unheard, htakes, List.nil_append]
        · simp [out]
      cases ends with
      | deleted runs hinbox asks =>
        obtain rfl := hfirst hinbox
        cases asks.kind
      | idle | halted => exact hlost rfl
  | seated first greets =>
    refine .seated ?_ (greets.append _)
    rw [List.head?_append, first, Option.some_or]
  | lost ended => cases ended.symm.trans live

theorem Thread.Next.begins (h : t.Next capacity t') (ht : t.Begins settings deadline id m name) :
    t'.Begins settings deadline id m name := by
  cases h with
  | stay => exact ht
  | opened blank =>
    subst blank
    cases ht with
    | fresh live => cases live
    | seated first => cases first
    | lost _ _ said => exact (said rfl).elim
  | called free =>
    cases ht with
    | fresh live runs due greets unheard silent next =>
      refine .fresh live runs due greets unheard silent (.inr (next.resolve_left fun hwait => ?_))
      cases free.symm.trans hwait.1
    | seated first greets => exact .seated first greets
    | lost ended unheard said => exact .lost ended unheard said
  | @delivered s m' live runs next' space =>
    cases ht with
    | @fresh s' live' runs due greets unheard silent next =>
      obtain rfl := Option.some.inj (live.symm.trans live')
      refine .fresh rfl runs due greets unheard silent (.inr ?_)
      rcases next with ⟨hwait, hnil⟩ | hhead
      · rw [hnil]
        exact congrArg List.head? (next'.symm.trans hwait)
      · rw [List.head?_append, hhead, Option.some_or]
    | seated first greets => exact .seated first greets
    | lost ended => cases ended.symm.trans live
  | closed ended =>
    cases ht with
    | fresh live runs =>
      rw [live, Option.any_some, runs] at ended
      cases ended
    | seated first greets => exact .seated first greets
    | lost ended unheard said => exact .lost ended unheard said
  | @stopped s live =>
    cases ht with
    | @fresh s' live' runs due greets unheard silent next =>
      obtain rfl := Option.some.inj (live.symm.trans live')
      exact .fresh rfl runs due greets unheard silent next
    | seated first greets => exact .seated first greets
    | lost ended => cases ended.symm.trans live
  | played live act => exact ht.play live act

end

namespace Desk

variable {d d' : Desk} {a : Act} {acts : List Act} {answer : Option Answer} {n : Nat}
  {id : GameId} {m : Message} {settings : Settings} {deadline : Nat} {name : String}

/-- Nothing stops a session before it can handle anything: the games go on, its room is not given
up, and its time does not run out. -/
def Spares (deadline n : Nat) (id : GameId) (acts : List Act) : Prop :=
  ∀ a ∈ acts, a ≠ .cancel ∧ a ≠ .remove id ∧ ∀ now, a = .play now n .expire → now < deadline

/-- The games go on and the session has its room. -/
structure Holds (d : Desk) (n : Nat) (id : GameId) : Prop where
  goesOn : d.games.cancelled = false
  room : d.games.rooms.get? id = some n

theorem Does.holds (h : d.Does a d' answer) (hcancel : a ≠ .cancel) (hremove : a ≠ .remove id)
    (hd : d.Holds n id) : d'.Holds n id := by
  cases h with
  | opened free hid room =>
    refine ⟨hd.goesOn, ?_⟩
    rw [Table.get?_insert, if_neg]
    · exact hd.room
    · rintro rfl
      cases room.symm.trans hd.room
  | removed =>
    refine ⟨(Registry.fixed_remove _ _).2.1.trans hd.goesOn, ?_⟩
    rw [(Registry.removes_remove _ _).rooms, Table.get?_erase, if_neg]
    · exact hd.room
    · rintro rfl
      exact hremove rfl
  | cancelled => exact (hcancel rfl).elim
  | played _ plays _ cancelled => exact ⟨cancelled.trans hd.goesOn, plays.rooms ▸ hd.room⟩
  | _ => exact ⟨hd.goesOn, hd.room⟩

/-- A session that waits for its first join does not end if nothing stops it. -/
theorem Does.spares {s : Session} (h : d.Does a d' answer) (hspares : Spares deadline n id [a])
    (hd : d.Sound) (hholds : d.Holds n id) (hs : d.games.sessions.get? n = some s)
    (hdue : s.deadline = deadline) (hfirst : ∀ m' rest, s.inbox = m' :: rest → m'.kind = .joinGame) :
    d'.games.sessions.get? n ≠ none := by
  intro hended
  obtain ⟨now, a', bye, rfl, hends, -⟩ := h.ends hs hended
  cases hends with
  | deleted runs next asks => cases (hfirst _ _ next).symm.trans asks.kind
  | idle runs due =>
    have hearly := (hspares _ List.mem_cons_self).2.2 now rfl
    exact Nat.not_le.2 hearly (hdue ▸ due)
  | halted runs cancelled =>
    rcases (hd.stopped n s hs).1 cancelled with hcancelled | hroom
    · cases hholds.goesOn.symm.trans hcancelled
    · exact hroom ⟨id, hholds.room⟩

theorem Does.unheard (h : d.Does a d' answer) (hnil : entriesOf n d'.handled = []) :
    entriesOf n d.handled = [] := by
  cases h with
  | played =>
    rw [entriesOf_append, List.append_eq_nil_iff] at hnil
    exact hnil.1
  | _ => exact hnil

theorem sound_from (hd : d.Sound) (hrun : d.run acts = some d') :
    d'.Sound ∧ d'.games.capacity = d.games.capacity := by
  refine run_induction (P := fun _ e => e.Sound ∧ e.games.capacity = d.games.capacity)
    ⟨hd, rfl⟩ (fun _ e a e' _ _ ⟨he, hcapacity⟩ ha => ?_) hrun
  have hdoes := does_act he.zero ha
  exact ⟨hdoes.sound he, hdoes.capacity.trans hcapacity⟩

theorem begins_run (hd : d.Sound) (hb : (d.thread n).Begins settings deadline id m name)
    (hrun : d.run acts = some d') : (d'.thread n).Begins settings deadline id m name := by
  refine run_induction (P := fun _ e => (e.thread n).Begins settings deadline id m name) hb
    (fun _ e a e' _ he ih ha => ?_) hrun
  have hsound := (sound_from hd he).1
  exact ((does_act hsound.zero ha).next (fun _ => hsound.blank) n).begins ih

theorem Begins.fresh (hb : (d.thread n).Begins settings deadline id m name)
    (hnil : entriesOf n d.handled = []) (hlive : d.games.sessions.get? n ≠ none) :
    ∃ s, d.games.sessions.get? n = some s ∧ s.failed = false ∧ s.deadline = deadline ∧
      d.games.underway n = [] ∧
      (entriesOf n d.waiting.toList = [m.joining id] ∧ s.inbox = [] ∨
        s.inbox.head? = some (m.joining id)) := by
  cases hb with
  | fresh live runs due greets unheard silent next => exact ⟨_, live, runs, due, silent, next⟩
  | seated first =>
    rw [show (d.thread n).handled = [] from hnil] at first
    cases first
  | lost ended => exact (hlive ended).elim

theorem spares_run (hd : d.Sound) (hholds : d.Holds n id)
    (hb : (d.thread n).Begins settings deadline id m name)
    (hlive : d.games.sessions.get? n ≠ none) (hspares : Spares deadline n id acts)
    (hrun : d.run acts = some d') :
    d'.Holds n id ∧ (entriesOf n d'.handled = [] → d'.games.sessions.get? n ≠ none) := by
  refine run_induction (P := fun acts e => Spares deadline n id acts → e.Holds n id ∧
    (entriesOf n e.handled = [] → e.games.sessions.get? n ≠ none))
    (fun _ => ⟨hholds, fun _ => hlive⟩) (fun acts e a e' answer he ih ha hspares => ?_) hrun hspares
  obtain ⟨hholds, hlive⟩ := ih fun b hb => hspares b (List.mem_append_left _ hb)
  have hact : Spares deadline n id [a] := fun b hb => hspares b (List.mem_append_right _ hb)
  obtain ⟨hcancel, hremove, -⟩ := hact a List.mem_cons_self
  have hsound := (sound_from hd he).1
  have hdoes := does_act hsound.zero ha
  refine ⟨hdoes.holds hcancel hremove hholds, fun hnil => ?_⟩
  have hunheard := hdoes.unheard hnil
  obtain ⟨s, hs, -, hdue, -, hnext⟩ :=
    Begins.fresh (begins_run hd hb he) hunheard (hlive hunheard)
  refine hdoes.spares hact hsound hholds hs hdue fun m' rest hinbox => ?_
  rcases hnext with ⟨-, hempty⟩ | hhead
  · cases hempty.symm.trans hinbox
  · rw [hinbox, List.head?_cons, Option.some_inj] at hhead
    rw [hhead]
    rfl

theorem unheard_run (hd : d.Sound) (hholds : d.Holds n id)
    (hb : (d.thread n).Begins settings deadline id m name)
    (hlive : d.games.sessions.get? n ≠ none) (hspares : Spares deadline n id acts)
    (hrun : d.run acts = some d') (hnil : entriesOf n d'.handled = []) :
    ∃ s, d'.games.sessions.get? n = some s ∧ s.failed = false ∧
      s.inbox = entriesOf n d'.delivered ∧
      d'.games.underway n = [] ∧
      (entriesOf n d'.waiting.toList = [m.joining id] ∧ s.inbox = [] ∨
        s.inbox.head? = some (m.joining id)) := by
  obtain ⟨-, hlive⟩ := spares_run hd hholds hb hlive hspares hrun
  obtain ⟨s, hs, hruns, -, hsilent, hnext⟩ := Begins.fresh (begins_run hd hb hrun) hnil (hlive hnil)
  have hqueue : entriesOf n d'.handled ++ s.inbox = entriesOf n d'.delivered :=
    (((sound_from hd hrun).1.threads n).live s hs hruns).queue
  rw [hnil, List.nil_append] at hqueue
  exact ⟨s, hs, hruns, hqueue, hsilent, hnext⟩

/-- A game that was just opened as session `n` for a player. The join of the player waits, and the
session can do nothing before it comes. In every run from here the session begins with this join and
greets the player. If nothing stops it, then the join is delivered, which completes the call, and
can be handled at any time; until then the session says nothing. -/
structure Founds (d : Desk) (settings : Settings) (now n : Nat) (id : GameId) (m : Message)
    (name : String) : Prop where
  room : d.games.rooms.get? id = some n
  waits : d.waiting = some (n, m.joining id)
  still : ∀ a, d.act (.play now n a) = none
  begins : ∀ acts e, d.run acts = some e → entriesOf n e.handled ≠ [] →
    (entriesOf n e.handled).head? = some (m.joining id) ∧
    Greets settings id m name (e.games.underway n)
  silent : ∀ acts e, d.run acts = some e → Spares (Time.due now now settings.idle) n id acts →
    entriesOf n e.handled = [] → e.games.underway n = []
  delivers : ∀ acts e, d.run acts = some e → Spares (Time.due now now settings.idle) n id acts →
    entriesOf n e.delivered = [] → e.waiting = some (n, m.joining id) ∧
    ∃ e', e.act .deliver = some (e', some (.ok ()))
  handles : ∀ acts e, d.run acts = some e → Spares (Time.due now now settings.idle) n id acts →
    entriesOf n e.handled = [] → entriesOf n e.delivered ≠ [] →
    ∀ time, ∃ e', e.act (.play time n .handle) = some (e', none) ∧
      entriesOf n e'.handled = [m.joining id]

theorem entriesOf_eq_singleton {w : Option (Nat × Message)} (h : entriesOf n w.toList = [m]) :
    w = some (n, m) := by
  cases w with
  | none => cases h
  | some x =>
    obtain ⟨k, m'⟩ := x
    rw [Option.toList_some, entriesOf_singleton] at h
    split at h
    · rename_i hk
      rw [hk, (List.cons.inj h).1]
    · cases h

theorem Sound.still (hd : d.Sound) (hholds : d.Holds n id) {s : Session}
    (hs : d.games.sessions.get? n = some s) (hruns : s.failed = false) (hquiet : s.inbox = [])
    {now : Nat} (hearly : now < s.deadline) (a : Session.Act) : d.act (.play now n a) = none := by
  have hcancelled : s.cancelled = false := by
    rw [Bool.eq_false_iff]
    intro hcancelled
    rcases (hd.stopped n s hs).1 hcancelled with hall | hroom
    · cases hholds.goesOn.symm.trans hall
    · exact hroom ⟨id, hholds.room⟩
  have hnone : s.act now a = none := by
    unfold Session.act
    rw [if_neg (Bool.eq_false_iff.1 hruns)]
    cases a with
    | handle =>
      dsimp only
      rw [hquiet]
    | expire => exact if_neg (Nat.not_le.2 hearly)
    | halt => exact if_neg (Bool.eq_false_iff.1 hcancelled)
  rw [act, Registry.act, hs]
  simp [hnone]

theorem undelivered_run (hd : d.Sound) (hcapacity : 0 < d.games.capacity) (hholds : d.Holds n id)
    (hb : (d.thread n).Begins settings deadline id m name)
    (hlive : d.games.sessions.get? n ≠ none) (hspares : Spares deadline n id acts)
    (hrun : d.run acts = some d') (hnil : entriesOf n d'.delivered = []) :
    d'.waiting = some (n, m.joining id) ∧ ∃ e, d'.act .deliver = some (e, some (.ok ())) := by
  obtain ⟨hd', hsame⟩ := sound_from hd hrun
  have hunheard : entriesOf n d'.handled = [] := List.prefix_nil.1 (hnil ▸ (hd'.threads n).handled)
  obtain ⟨s, hs, hruns, hqueue, -, hnext⟩ := unheard_run hd hholds hb hlive hspares hrun hunheard
  rw [hnil] at hqueue
  have hw : d'.waiting = some (n, m.joining id) := by
    rcases hnext with ⟨hw, -⟩ | hhead
    · exact entriesOf_eq_singleton hw
    · rw [hqueue] at hhead
      cases hhead
  refine ⟨hw, ?_⟩
  obtain ⟨e, he⟩ := hd'.deliver hw fun s' hs' _ => by
    obtain rfl := Option.some.inj (hs.symm.trans hs')
    rw [hqueue, hsame]
    exact hcapacity
  rw [hd'.verdict hw, Registry.runs, hs, Option.any_some, hruns] at he
  exact ⟨e, he⟩

theorem delivered_run (hd : d.Sound) (hholds : d.Holds n id)
    (hb : (d.thread n).Begins settings deadline id m name)
    (hlive : d.games.sessions.get? n ≠ none) (hspares : Spares deadline n id acts)
    (hrun : d.run acts = some d') (hnil : entriesOf n d'.handled = [])
    (hdelivered : entriesOf n d'.delivered ≠ []) (time : Nat) :
    ∃ e, d'.act (.play time n .handle) = some (e, none) ∧ entriesOf n e.handled = [m.joining id] := by
  obtain ⟨s, hs, hruns, hqueue, -, hnext⟩ := unheard_run hd hholds hb hlive hspares hrun hnil
  have hhead : s.inbox.head? = some (m.joining id) :=
    hnext.resolve_left fun hwait => hdelivered (hqueue.symm.trans hwait.2)
  obtain ⟨rest, hinbox⟩ := List.head?_eq_some_iff.1 hhead
  have htakes : d'.games.takes n .handle = [m.joining id] := by
    rw [Registry.takes, hs]
    simp [Session.takes, hinbox]
  obtain ⟨r, hr⟩ := Registry.handle_possible hs hruns hinbox time
  refine ⟨_, congrArg (Option.map _) hr, ?_⟩
  dsimp only
  rw [htakes, entriesOf_append, entriesOf_map, if_pos rfl, hnil, List.nil_append]

theorem founds_of_fresh {now : Nat} (hd : d.Sound) (hcapacity : 0 < d.games.capacity)
    (hidle : 0 < settings.idle) (hholds : d.Holds n id) {s : Session}
    (hs : d.games.sessions.get? n = some s) (hquiet : s.inbox = [])
    (hruns : s.failed = false) (hdue : s.deadline = Time.due now now settings.idle)
    (hwaits : d.waiting = some (n, m.joining id))
    (hb : (d.thread n).Begins settings (Time.due now now settings.idle) id m name) :
    d.Founds settings now n id m name where
  room := hholds.room
  waits := hwaits
  still := hd.still hholds hs hruns hquiet (hdue ▸ Time.lt_due now hidle)
  begins acts e hrun hheard := by
    cases begins_run hd hb hrun with
    | fresh _ _ _ _ unheard => exact (hheard unheard).elim
    | seated first greets => exact ⟨first, greets⟩
    | lost _ unheard => exact (hheard unheard).elim
  silent acts e hrun hspares hnil := by
    obtain ⟨s, -, -, -, hsilent, -⟩ :=
      unheard_run hd hholds hb (by simp [hs]) hspares hrun hnil
    exact hsilent
  delivers acts e hrun hspares hnil :=
    undelivered_run hd hcapacity hholds hb (by simp [hs]) hspares hrun hnil
  handles acts e hrun hspares hnil hdelivered time :=
    delivered_run hd hholds hb (by simp [hs]) hspares hrun hnil hdelivered time

theorem Sound.founds {now : Nat} (hd : d.Sound) (hcapacity : 0 < d.games.capacity)
    (hidle : 0 < d.games.settings.idle)
    (hletters : (d.games.settings.letters.toList.filter Char.isAlpha).length < UInt32.size - 1)
    (hfree : d.waiting = none) (hgoes : d.games.cancelled = false)
    (hleft : d.games.exhausted = false) (hp : m.player = some name)
    (hsound : ∀ e, ¬ d.games.Spoils m e) :
    ∃ d' n id, d.act (.create now m) = some (d', none) ∧ id ≠ 0 ∧
      d.games.rooms.get? id = none ∧ d.thread n = {} ∧
      d'.games.rooms = d.games.rooms.insert id n ∧
      d'.Founds d.games.settings now n id m name := by
  obtain ⟨grid, rules, g, hfull, hasked, hvalid, hgiven, hgame⟩ :=
    Registry.exists_create hsound now
  have hcreate := Registry.create_eq_of_valid hfull hasked hvalid hgiven hgame
  obtain ⟨d', hact, hgames, hwaits, hhandled⟩ : ∃ d', d.act (.create now m) = some (d', none) ∧
      d'.games = { d.games with
        rooms := d.games.rooms.insert d.games.nextId d.games.started
        sessions := d.games.sessions.insert d.games.started
          { Session.start g now with cancelled := d.games.cancelled }
        places := d.games.places ++ [d.games.started]
        started := d.games.started + 1 } ∧
      d'.waiting = some (d.games.started, m.joining d.games.nextId) ∧
      d'.handled = d.handled := by
    rw [act, hfree, hleft, hcreate]
    exact ⟨_, rfl, rfl, rfl, rfl⟩
  have hdoes := does_act hd.zero hact
  obtain ⟨hid, hroom⟩ := Registry.nextId_free hd.zero hfull hleft
  have hblank := hd.blank (Nat.le_refl d.games.started)
  have hs : d'.games.sessions.get? d.games.started =
      some { Session.start g now with cancelled := d.games.cancelled } := by
    rw [hgames, Table.get?_insert, if_pos rfl]
  have hdue : (Session.start g now).deadline = Time.due now now d.games.settings.idle := by
    obtain rfl := Game.setUp_eq_ok hgame
    rfl
  refine ⟨d', d.games.started, d.games.nextId, hact, hid, hroom, hblank, by rw [hgames], ?_⟩
  refine founds_of_fresh (hdoes.sound hd) (hdoes.capacity ▸ hcapacity) hidle
    ⟨hgames ▸ hgoes, ?_⟩ hs rfl rfl hdue hwaits ?_
  · rw [hgames, Table.get?_insert, if_pos rfl]
  · have hgreets := Game.greets_first hletters hgame hasked hvalid hp
    refine .fresh hs rfl hdue hgreets ?_ ?_ (.inl ⟨?_, rfl⟩)
    · exact (congrArg (entriesOf _) hhandled).trans (congrArg Thread.handled hblank)
    · have hsaid : d'.games.underway d.games.started = d.games.underway d.games.started := by
        rw [hgames]
        rfl
      exact hsaid.trans (congrArg Thread.said hblank)
    · simp [thread, hwaits]

/-- A request for a game fails exactly when something is wrong with it, for what is wrong first, and
then leaves everything as it was. Otherwise it opens a game under a new id, whose first messages seat
the player who asked for it. -/
theorem request_founds {r : Registry} (h : r.Unopened)
    (hrun : Desk.run { games := r } acts = some d) (hcapacity : 0 < d.games.capacity)
    (hidle : 0 < d.games.settings.idle)
    (hletters : (d.games.settings.letters.toList.filter Char.isAlpha).length < UInt32.size - 1)
    (hfree : d.waiting = none) (hgoes : d.games.cancelled = false)
    (hleft : d.games.exhausted = false) (hp : m.player = some name) (now : Nat) :
    (∀ d' e, d.act (.create now m) = some (d', some (.error e)) ↔
      d' = d ∧ d.games.Spoils m e) ∧
    ((∀ e, ¬ d.games.Spoils m e) → ∃ d' n id, d.act (.create now m) = some (d', none) ∧
      id ≠ 0 ∧ d.games.rooms.get? id = none ∧ d.thread n = {} ∧
      d'.games.rooms = d.games.rooms.insert id n ∧
      d'.Founds d.games.settings now n id m name) := by
  have hd := sound_run h hrun
  refine ⟨fun d' e => ?_, hd.founds hcapacity hidle hletters hfree hgoes hleft hp⟩
  rw [← @Registry.create_eq_error d.games m e now, act, hfree, hleft]
  cases d.games.create now m with
  | error e' => simp [eq_comm]
  | ok c => simp

theorem request_founds_parlour : ∃ d' n id, parlour.Unopened ∧ 0 < parlour.capacity ∧
    0 < parlour.settings.idle ∧
    (parlour.settings.letters.toList.filter Char.isAlpha).length < UInt32.size - 1 ∧
    Desk.act { games := parlour } (.create 0 (asking "ann")) = some (d', none) ∧
    d'.Founds parlour.settings 0 n id (asking "ann") "ann" ∧
    Desk.act { games := parlour } (.create 0 { asking "ann" with rules := none }) =
      some ({ games := parlour }, some (.error .missingRules)) := by
  have hunopened : parlour.Unopened := ⟨rfl, rfl, rfl, rfl⟩
  have hletters : (parlour.settings.letters.toList.filter Char.isAlpha).length <
    UInt32.size - 1 := by decide
  have hrun : Desk.run { games := parlour } [] = some { games := parlour } := rfl
  have hidle : 0 < parlour.settings.idle := by decide
  have hsound (e : RegistryError) : ¬ parlour.Spoils (asking "ann") e := fun he => by
    cases he.create 0
  obtain ⟨d', n, id, hact, -, -, -, -, hfounds⟩ :=
    (request_founds hunopened hrun Nat.one_pos hidle hletters rfl rfl rfl rfl 0).2 hsound
  have hspoils : parlour.Spoils { asking "ann" with rules := none } .missingRules :=
    .missingRules (by decide) rfl (by decide) rfl
  have hp : Message.player { asking "ann" with rules := none } = some "ann" := rfl
  have hrefused := (request_founds hunopened hrun Nat.one_pos hidle hletters rfl rfl rfl hp 0).1
    _ _ |>.2 ⟨rfl, hspoils⟩
  exact ⟨d', n, id, hunopened, Nat.one_pos, hidle, hletters, hact, hfounds, hrefused⟩

end Desk

end TileRace
