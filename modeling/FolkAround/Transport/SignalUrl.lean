import FolkAround.Lib.Search
import FolkAround.Lib.Url
import FolkAround.Transport.P2P

/-!
# The room in the URL

The daemon writes the name of its room into a URL as it is; the worker takes it out of the
path that it reads in the URL of the request.  Whether the parser of the one and that of the
other encode a caret is left open (`daemon`, `worker`).

* `signalWebsocketUrl` — the URL of the daemon.
* `fetch`, `workerRoute` — what the worker does with a path, and with a request.
* `roomBase`, `place` — where the rooms of a server are, and where a room is among them:
  what is left of its name after a query, a fragment, blanks and dots are taken away.
* `parsePath_pathText` — the path that is read for a room is its place.
* `rooms_apart_iff` — two rooms are apart exactly if they have different places below
  `signal`, encoded as either parser does.
* `settled_rooms_apart` — names that are read as they are are such rooms.
-/

namespace FolkAround
namespace Transport

open Url

/-! ## The daemon -/

/-- Cut at the first place of a piece. -/
def splitOnce (piece text : List Char) : Option (List Char × List Char) :=
  (Search.find piece text).map fun i => (text.take i, text.drop (i + piece.length))

def schemeStarts : List (List Char) :=
  ["ws://".toList, "wss://".toList, "http://".toList, "https://".toList]

/-- The URL of the server, with a scheme. -/
def baseUrl (rawUrl : String) : List Char :=
  if schemeStarts.any (·.isPrefixOf rawUrl.toList) then rawUrl.toList
  else "https://".toList ++ rawUrl.toList

/-- The scheme of a websocket for a scheme. -/
def wsScheme (scheme : List Char) : Option Scheme :=
  if scheme = "http".toList then some .ws
  else if scheme = "https".toList then some .wss
  else if scheme = "ws".toList then some .ws
  else if scheme = "wss".toList then some .wss
  else none

def signalWebsocketUrl (A : Authorities) (daemon : Bool) (rawUrl room : String) :
    Except TransportError (Record A) :=
  match splitOnce "://".toList (baseUrl rawUrl) with
  | none => .error .invalidSignalUrl
  | some (scheme, rest) =>
    match wsScheme scheme with
    | none => .error .invalidSignalUrl
    | some wsScheme =>
      let rest := rest.rdropWhile (· = '/')
      match Url.parse A daemon (wsScheme.text ++ "://".toList ++
          (rest ++ "/signal/".toList ++ room.toList)) with
      | none => .error .url
      | some url => .ok url

/-! ## The worker -/

/-- What a request is answered with. -/
inductive WorkerRoute where
  | home
  /-- The room of this name. -/
  | room (name : List Char)
  | missingRoom
  | health
  | rooms
  | assets
  deriving DecidableEq

/-- The route of a path. -/
def fetch (pathname : List Char) : WorkerRoute :=
  if pathname = "/".toList then .home
  else if "/signal/".toList <+: pathname then
    let room := pathname.drop "/signal/".toList.length
    if room = [] then .missingRoom else .room room
  else if pathname = "/health".toList then .health
  else if pathname = "/rooms".toList then .rooms
  else .assets

/-- The route of a request, if its URL is one. -/
def workerRoute (A : Authorities) (worker : Bool) (request : List Char) : Option WorkerRoute :=
  (Url.parse A worker request).map fun url => fetch (pathname url.path)

/-- Two rooms, under different names. -/
def Apart (x y : Option WorkerRoute) : Prop :=
  ∃ name₁ name₂, x = some (.room name₁) ∧ y = some (.room name₂) ∧ name₁ ≠ name₂

/-! ## Where the rooms are -/

/-- What stands before the path of the rooms. -/
def server (rawUrl : String) : List Char :=
  ((splitOnce "://".toList (baseUrl rawUrl)).map Prod.snd).getD [] |>.rdropWhile (· = '/')

/-- The text before the name of a room, without scheme and slashes: if there is no server,
`signal` is in its place. -/
def site (rawUrl : String) : List Char :=
  let text := ((server rawUrl).filter (! isDropped ·)).dropWhile isSlash
  if text = [] then "signal/".toList else text ++ "/signal/".toList

/-- The path at the end of that text. -/
def sitePath (rawUrl : String) : List Char := (site rawUrl).dropWhile (! endsAuthority ·)

/-- The place of the rooms of a server, unless a query or a fragment comes before it. -/
def roomBase (caret : Bool) (rawUrl : String) : Option (List Segment) :=
  if (sitePath rawUrl).any endsPath then none
  else some ((segments caret (sitePath rawUrl).tail).dropLast.foldl enter [])

/-- What is read of the name of a room. -/
def roomText (room : String) : List Char := (cleanEnd room.toList).takeWhile (! endsPath ·)

/-- The place of a room. -/
def place (caret : Bool) (base : List Segment) (room : String) : List Segment :=
  walk base (segments caret (roomText room))

/-- The text of the path of a room's URL. -/
def pathText (rawUrl room : String) : List Char :=
  (sitePath rawUrl ++ cleanEnd room.toList).takeWhile (! endsPath ·)

theorem exists_parse {A : Authorities} {daemon : Bool} {rawUrl room : String} {u : Record A}
    (h : signalWebsocketUrl A daemon rawUrl room = .ok u) :
    ∃ scheme : Scheme, Url.parse A daemon (scheme.text ++ "://".toList ++
      (server rawUrl ++ "/signal/".toList ++ room.toList)) = some u := by
  unfold signalWebsocketUrl at h
  split at h
  · exact absurd h (by simp)
  · next _ rest hcut =>
      split at h
      · exact absurd h (by simp)
      · next scheme _ =>
          simp only at h
          split at h
          · exact absurd h (by simp)
          · next url hparse =>
              rw [← Except.ok.inj h, server, hcut]
              exact ⟨scheme, hparse⟩

/-- The text of the URL after its slashes. -/
theorem site_append (rawUrl room : String) :
    (cleanEnd (server rawUrl ++ "/signal/".toList ++ room.toList)).dropWhile isSlash =
      site rawUrl ++ cleanEnd room.toList := by
  have hsplit : server rawUrl ++ "/signal/".toList ++ room.toList =
      (server rawUrl ++ "/signal".toList) ++ '/' :: room.toList := by simp
  have hclean : cleanEnd (server rawUrl ++ "/signal/".toList ++ room.toList) =
      (server rawUrl).filter (! isDropped ·) ++ ("/signal/".toList ++ cleanEnd room.toList) := by
    rw [hsplit, cleanEnd_append_slash, List.filter_append, List.append_assoc]
    rfl
  rw [hclean, List.dropWhile_append, site]
  by_cases hnil : ((server rawUrl).filter (! isDropped ·)).dropWhile isSlash = []
  · rw [if_pos (List.isEmpty_iff.2 hnil), if_pos hnil]
    rfl
  · rw [if_neg (by simpa using hnil), if_neg hnil, List.append_assoc]

/-- A slash is the end of what stands before the name. -/
theorem site_eq (rawUrl : String) : ∃ front, site rawUrl = front ++ ['/'] := by
  unfold site
  simp only
  split
  · exact ⟨"signal".toList, rfl⟩
  · exact ⟨((server rawUrl).filter (! isDropped ·)).dropWhile isSlash ++ "/signal".toList, by simp⟩

/-- The path before the names: something that ends the authority, and a slash at the end. -/
theorem sitePath_eq (rawUrl : String) :
    ∃ c rest, sitePath rawUrl = c :: rest ∧ endsAuthority c = true ∧
      (rest = [] ∨ ∃ front, rest = front ++ ['/']) := by
  obtain ⟨front, hfront⟩ := site_eq rawUrl
  have hne : sitePath rawUrl ≠ [] := by
    intro hnil
    have hall := List.dropWhile_eq_nil_iff.1 hnil '/' (by simp [hfront])
    exact absurd hall (by decide)
  obtain ⟨c, rest, hcons⟩ := List.exists_cons_of_ne_nil hne
  refine ⟨c, rest, hcons, ?_, ?_⟩
  · have hc : (! endsAuthority ((sitePath rawUrl).head hne)) = false :=
      List.head_dropWhile_not (! endsAuthority ·) hne
    simpa only [hcons, List.head_cons, Bool.not_eq_false'] using hc
  · obtain ⟨before, hbefore⟩ : sitePath rawUrl <:+ site rawUrl := List.dropWhile_suffix _
    rcases List.eq_nil_or_concat rest with rfl | ⟨middle, d, rfl⟩
    · exact .inl rfl
    · refine .inr ⟨middle, ?_⟩
      rw [hcons, hfront, List.concat_eq_append, ← List.cons_append, ← List.append_assoc] at hbefore
      have hd : d = '/' := by simpa using (List.append_inj' hbefore rfl).2
      rw [hd, List.concat_eq_append]

/-- Segments that end with a slash stand before the next ones. -/
theorem segments_append (caret : Bool) {rest : List Char}
    (h : rest = [] ∨ ∃ front, rest = front ++ ['/']) (text : List Char) :
    segments caret (rest ++ text) = (segments caret rest).dropLast ++ segments caret text := by
  rcases h with rfl | ⟨front, rfl⟩
  · rfl
  · have hslash : isSlash '/' = true := by decide
    have hlast : segments caret (front ++ ['/']) = segments caret front ++ [[]] := by
      rw [segments, List.splitOnP_append_cons front [] hslash, List.map_append]
      rfl
    rw [hlast, List.dropLast_concat, segments, List.append_assoc, List.singleton_append,
      List.splitOnP_append_cons front text hslash, List.map_append]
    rfl

theorem path_signalWebsocketUrl {A : Authorities} {daemon : Bool} {rawUrl room : String}
    {u : Record A} (h : signalWebsocketUrl A daemon rawUrl room = .ok u) :
    u.path = parsePath daemon (pathText rawUrl room) := by
  obtain ⟨scheme, hparse⟩ := exists_parse h
  rw [parse_scheme, site_append] at hparse
  obtain ⟨c, rest, hcons, -⟩ := sitePath_eq rawUrl
  have hback : (site rawUrl ++ cleanEnd room.toList).dropWhile (! endsAuthority ·) =
      sitePath rawUrl ++ cleanEnd room.toList := by
    rw [List.dropWhile_append, ← sitePath, if_neg (by simp [hcons])]
  rw [path_of_parseRest hparse, hback, pathText]

/-- **The path that is read for a room.**  It is the place of the room, or has nothing to do
with it. -/
theorem parsePath_pathText (caret : Bool) (rawUrl room : String) :
    parsePath caret (pathText rawUrl room) = match roomBase caret rawUrl with
      | none => parsePath caret ((sitePath rawUrl).takeWhile (! endsPath ·))
      | some base => place caret base room := by
  obtain ⟨c, rest, hcons, hc, hrest⟩ := sitePath_eq rawUrl
  rw [pathText, roomBase]
  by_cases hends : (sitePath rawUrl).any endsPath = true
  · -- the path ends before the name begins
    rw [if_pos hends, List.takeWhile_append, if_neg]
    intro hlength
    have hself : (sitePath rawUrl).takeWhile (! endsPath ·) = sitePath rawUrl :=
      (List.takeWhile_prefix _).eq_of_length hlength
    obtain ⟨d, hd, hd'⟩ := List.any_eq_true.1 hends
    have hkept := List.takeWhile_eq_self_iff.1 hself d hd
    rw [hd'] at hkept
    exact absurd hkept (by simp)
  · rw [if_neg hends]
    have hall : ∀ d ∈ sitePath rawUrl, (! endsPath d) = true := by
      intro d hd
      by_contra hd'
      exact hends (List.any_eq_true.2 ⟨d, hd, by simpa using hd'⟩)
    have hslash : isSlash c = true := by
      have hcp := hall c (hcons ▸ List.mem_cons_self)
      rw [endsAuthority] at hc
      simp_all
    have hhead : (((c :: rest) ++ roomText room).head?.map isSlash).getD false = true := hslash
    rw [List.takeWhile_append_of_pos hall, ← roomText, hcons, parsePath, if_pos hhead,
      List.cons_append, List.tail_cons, List.tail_cons, segments_append caret hrest,
      walk_append (segments_ne_nil _)]
    rfl

/-! ## The rooms of the worker -/

/-- The segment below which the rooms are. -/
def signal : Segment := "signal".toList

theorem settled_signal (caret : Bool) : Settled caret signal := by
  cases caret <;> decide +kernel

/-- What stands below it for a room: not nothing, and not an empty name. -/
structure IsName (below : List Segment) : Prop where
  ne_nil : below ≠ []
  ne_empty : below ≠ [[]]

theorem pathname_signal {below : List Segment} (hne : below ≠ []) :
    pathname (signal :: below) = "/signal/".toList ++ (pathname below).tail := by
  obtain ⟨seg, segs, rfl⟩ := List.exists_cons_of_ne_nil hne
  rfl

theorem IsName.tail_ne_nil {below : List Segment} (h : IsName below) :
    (pathname below).tail ≠ [] := by
  obtain ⟨seg, segs, rfl⟩ := List.exists_cons_of_ne_nil h.ne_nil
  rw [pathname_cons, List.tail_cons]
  intro hnil
  obtain ⟨rfl, hsegs⟩ := List.append_eq_nil_iff.1 hnil
  cases segs with
  | nil => exact h.ne_empty rfl
  | cons next segs => exact absurd hsegs (by rw [pathname_cons]; simp)

/-- A path that is routed to a room. -/
theorem fetch_signal {below : List Segment} (h : IsName below) :
    fetch (pathname (signal :: below)) = .room (pathname below).tail := by
  rw [pathname_signal h.ne_nil, fetch, if_neg (by simp), if_pos (List.prefix_append ..)]
  simp only [List.drop_left, if_neg h.tail_ne_nil]

/-- Only such a path is. -/
theorem exists_below {caret : Bool} {path : List Segment} {name : List Char}
    (hpath : Normal caret path) (h : fetch (pathname path) = .room name) :
    ∃ below, path = signal :: below ∧ IsName below := by
  unfold fetch at h
  split at h
  · exact absurd h (by simp)
  · split at h
    · next hprefix =>
        obtain ⟨rest, hrest⟩ := hprefix
        simp only [← hrest, List.drop_left] at h
        have hne : rest ≠ [] := by
          intro hnil
          rw [if_pos hnil] at h
          exact absurd h (by simp)
        have hsplit : path = signal :: rest.splitOnP isSlash := by
          have hslash : isSlash '/' = true := by decide
          have hsignal : ∀ c ∈ signal, isSlash c = false := fun c hc =>
            ((settled_signal caret).plain c hc).2
          rw [← splitOnP_pathname hpath.no_slash hpath.ne_nil, ← hrest]
          exact List.splitOnP_append_cons_of_forall_mem hsignal '/' hslash rest
        refine ⟨rest.splitOnP isSlash, hsplit, List.splitOnP_ne_nil isSlash rest, ?_⟩
        intro hempty
        rw [hsplit, pathname_signal (List.splitOnP_ne_nil isSlash rest), hempty] at hrest
        exact hne (List.append_cancel_left hrest)
    · split at h
      · exact absurd h (by simp)
      · split at h <;> exact absurd h (by simp)

/-- Different segments make different names. -/
theorem tail_pathname_inj {p q : List Segment} (hp : IsName p) (hq : IsName q)
    (hpslash : ∀ seg ∈ p, ∀ c ∈ seg, isSlash c = false)
    (hqslash : ∀ seg ∈ q, ∀ c ∈ seg, isSlash c = false)
    (h : (pathname p).tail = (pathname q).tail) : p = q := by
  rw [← splitOnP_pathname hpslash hp.ne_nil, h, splitOnP_pathname hqslash hq.ne_nil]

/-! ## Rooms that are apart -/

/-- The rooms have different places below `signal`, under names. -/
def DistinctPlaces (caret : Bool) (rawUrl room₁ room₂ : String) : Prop :=
  ∃ base, roomBase caret rawUrl = some base ∧
    ∃ p q, place caret base room₁ = signal :: p ∧ place caret base room₂ = signal :: q ∧
      IsName p ∧ IsName q ∧ p ≠ q

/-- The worker reads the path by the rules of both parsers. -/
theorem workerRoute_request {A : Authorities} {daemon : Bool} (worker : Bool)
    {rawUrl room : String} {u : Record A} (h : signalWebsocketUrl A daemon rawUrl room = .ok u) :
    workerRoute A worker u.request =
      some (fetch (pathname (parsePath (daemon || worker) (pathText rawUrl room)))) := by
  obtain ⟨scheme, hparse⟩ := exists_parse h
  obtain ⟨v, hv, hpath⟩ := parse_request worker hparse
  rw [workerRoute, hv, Option.map_some, hpath, path_signalWebsocketUrl h, map_recode_parsePath]

/-- **Rooms that are apart.**  The worker has the two rooms under different names exactly if
they have different places below `signal`, with a caret encoded if it is by one of the two
parsers. -/
theorem rooms_apart_iff {A : Authorities} {daemon worker : Bool} {rawUrl room₁ room₂ : String}
    {u₁ u₂ : Record A} (h₁ : signalWebsocketUrl A daemon rawUrl room₁ = .ok u₁)
    (h₂ : signalWebsocketUrl A daemon rawUrl room₂ = .ok u₂) :
    Apart (workerRoute A worker u₁.request) (workerRoute A worker u₂.request) ↔
      DistinctPlaces (daemon || worker) rawUrl room₁ room₂ := by
  rw [workerRoute_request worker h₁, workerRoute_request worker h₂]
  generalize (daemon || worker) = caret
  have hnormal₁ := normal_parsePath caret (pathText rawUrl room₁)
  have hnormal₂ := normal_parsePath caret (pathText rawUrl room₂)
  have hpath₁ := parsePath_pathText caret rawUrl room₁
  have hpath₂ := parsePath_pathText caret rawUrl room₂
  constructor
  · rintro ⟨name₁, name₂, hroute₁, hroute₂, hname⟩
    rw [Option.some.injEq] at hroute₁ hroute₂
    obtain ⟨p, hp, hpname⟩ := exists_below hnormal₁ hroute₁
    obtain ⟨q, hq, hqname⟩ := exists_below hnormal₂ hroute₂
    have hne : p ≠ q := by
      rintro rfl
      rw [hp, fetch_signal hpname] at hroute₁
      rw [hq, fetch_signal hpname] at hroute₂
      exact hname (WorkerRoute.room.inj (hroute₁.symm.trans hroute₂))
    cases hbase : roomBase caret rawUrl with
    | none =>
        -- the names are not read: both paths are the same
        rw [hbase] at hpath₁ hpath₂
        exact absurd (List.cons.inj (hp.symm.trans (hpath₁.trans (hpath₂.symm.trans hq)))).2 hne
    | some base =>
        rw [hbase] at hpath₁ hpath₂
        exact ⟨base, hbase, p, q, hpath₁.symm.trans hp, hpath₂.symm.trans hq, hpname, hqname, hne⟩
  · rintro ⟨base, hbase, p, q, hp, hq, hpname, hqname, hne⟩
    rw [hbase] at hpath₁ hpath₂
    have hp' := hpath₁.trans hp
    have hq' := hpath₂.trans hq
    rw [hp', hq', fetch_signal hpname, fetch_signal hqname]
    refine ⟨_, _, rfl, rfl, ?_⟩
    intro hname
    refine hne (tail_pathname_inj hpname hqname ?_ ?_ hname)
    · exact fun seg hseg => hnormal₁.no_slash seg (hp' ▸ List.mem_cons_of_mem _ hseg)
    · exact fun seg hseg => hnormal₂.no_slash seg (hq' ▸ List.mem_cons_of_mem _ hseg)

theorem place_of_settled {caret : Bool} {room : String} (h : Settled caret room.toList) :
    place caret [signal] room = [signal, room.toList] := by
  have hplain : ∀ c ∈ room.toList, isBlank c = false ∧ endsPath c = false := fun c hc =>
    not_blank_of_pathSet (h.plain c hc).1
  have htext : roomText room = room.toList := by
    rw [roomText, cleanEnd_of_plain fun c hc => (hplain c hc).1, List.takeWhile_eq_self_iff]
    intro c hc
    simp [(hplain c hc).2]
  have hsegments : segments caret room.toList = [room.toList] := by
    rw [segments, List.splitOnP_eq_singleton fun c hc => (h.plain c hc).2, List.map_singleton,
      percentEncode_of_plain fun c hc => (h.plain c hc).1]
  rw [place, htext, hsegments, walk_of_settled (by simpa using h)]
  rfl

/-- Names that are read as they are belong to different rooms, on a server that has no path
of its own. -/
theorem settled_rooms_apart {caret : Bool} {rawUrl room₁ room₂ : String}
    (hbase : roomBase caret rawUrl = some [signal]) (h₁ : Settled caret room₁.toList)
    (h₂ : Settled caret room₂.toList) (hne₁ : room₁ ≠ "") (hne₂ : room₂ ≠ "")
    (hne : room₁ ≠ room₂) : DistinctPlaces caret rawUrl room₁ room₂ := by
  have hname : ∀ {room : String}, room ≠ "" → IsName [room.toList] := by
    intro room hroom
    refine ⟨by simp, ?_⟩
    intro hnil
    exact hroom (String.toList_inj.1 (List.cons.inj hnil).1)
  refine ⟨_, hbase, _, _, place_of_settled h₁, place_of_settled h₂, hname hne₁, hname hne₂, ?_⟩
  intro heq
  exact hne (String.toList_inj.1 (List.cons.inj heq).1)

/-! ### On one server -/

/-- The characters of common host names. -/
def hostChars : List Char := "abcdefghijklmnopqrstuvwxyz0123456789.-".toList

/-- Hosts with such names. -/
def namedHosts : Authorities where
  Authority := { text : List Char // text ≠ [] ∧ text.all hostChars.contains = true }
  parse _ text :=
    if h : text ≠ [] ∧ text.all hostChars.contains = true then some ⟨text, h⟩ else none
  serialize := Subtype.val
  parse_serialize {_ _ a} _ := dif_pos a.property
  serialize_ne_nil {_ _ a} _ := a.property.1
  serialize_plain {_ _ a} _ c hc := by
    have hall : hostChars.all (fun c => ! endsAuthority c && ! isBlank c) = true := by decide
    have hmem : c ∈ hostChars := List.contains_iff_mem.1 (List.all_eq_true.1 a.property.2 c hc)
    simpa using List.all_eq_true.1 hall c hmem

def folkServer : String := "https://folkaround.undivisible.dev"

theorem roomBase_folkServer (caret : Bool) : roomBase caret folkServer = some [signal] := by
  cases caret <;> decide +kernel

theorem exists_url (daemon : Bool) (room : String)
    (h : (signalWebsocketUrl namedHosts daemon folkServer room).toOption.isSome = true) :
    ∃ u, signalWebsocketUrl namedHosts daemon folkServer room = .ok u := by
  cases hurl : signalWebsocketUrl namedHosts daemon folkServer room with
  | ok u => exact ⟨u, rfl⟩
  | error err =>
      rw [hurl] at h
      exact absurd h (by simp [Except.toOption])

/-- Two rooms of that server that are apart, where no parser encodes the caret. -/
theorem rooms_apart_den_attic :
    ∃ u₁ u₂, signalWebsocketUrl namedHosts false folkServer "den^1" = .ok u₁ ∧
      signalWebsocketUrl namedHosts false folkServer "den%5E1" = .ok u₂ ∧
      Apart (workerRoute namedHosts false u₁.request)
        (workerRoute namedHosts false u₂.request) := by
  obtain ⟨u₁, h₁⟩ := exists_url false "den^1" (by decide +kernel)
  obtain ⟨u₂, h₂⟩ := exists_url false "den%5E1" (by decide +kernel)
  refine ⟨u₁, u₂, h₁, h₂, (rooms_apart_iff h₁ h₂).2 ?_⟩
  exact settled_rooms_apart (roomBase_folkServer _) (by decide +kernel) (by decide +kernel)
    (by decide) (by decide) (by decide)

/-- The rooms `a#1` and `a#2` are one. -/
theorem fragment_rooms_meet :
    ∃ u₁ u₂, signalWebsocketUrl namedHosts false folkServer "a#1" = .ok u₁ ∧
      signalWebsocketUrl namedHosts false folkServer "a#2" = .ok u₂ ∧
      ¬ Apart (workerRoute namedHosts false u₁.request)
        (workerRoute namedHosts false u₂.request) := by
  obtain ⟨u₁, h₁⟩ := exists_url false "a#1" (by decide +kernel)
  obtain ⟨u₂, h₂⟩ := exists_url false "a#2" (by decide +kernel)
  refine ⟨u₁, u₂, h₁, h₂, ?_⟩
  have htext : pathText folkServer "a#1" = pathText folkServer "a#2" := by decide +kernel
  rw [workerRoute_request false h₁, workerRoute_request false h₂, htext]
  rintro ⟨name₁, name₂, hname₁, hname₂, hne⟩
  exact hne (WorkerRoute.room.inj (Option.some.inj (hname₁.symm.trans hname₂)))

end Transport
end FolkAround
