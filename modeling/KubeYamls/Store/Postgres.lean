import KubeYamls.Data.Conninfo
import KubeYamls.Dex.Text

/-! # The data source name of the Postgres storage

`createDataSourceName` in `dex/storage/sql/config.go`, and the parameters a reader of
connection strings finds in it. All values but the timeout and the port are written in
quotes. A port that was split from `Host` is any text. -/
namespace KubeYamls.Store.Sql
open Data Data.Conninfo List

structure PostgresSSL where
  mode : String := ""
  caFile : String := ""
  keyFile : String := ""
  certFile : String := ""

structure Postgres where
  database : String := ""
  user : String := ""
  password : String := ""
  host : String := ""
  port : UInt16 := 0
  ssl : PostgresSSL := {}
  connectionTimeout : Int := 0

def sslVerifyFull : String := "verify-full"

/-- `net.SplitHostPort`: the port is what follows the last colon. -/
def splitHostPort (hostport : String) : Option (String × String) :=
  (Dex.splitHostPort hostport.toList).map fun host =>
    (String.ofList host, String.ofList (hostport.toList.reverse.takeWhile (· ≠ ':')).reverse)

def dataSourceStr (str : String) : String := String.ofList (quote str.toList)

def Postgres.hostPort (p : Postgres) : String × String :=
  match splitHostPort p.host with
  | some hp => hp
  -- not host:port, probably unix socket or bare address
  | none => (p.host, if p.port ≠ 0 then toString p.port.toNat else "")

def addParam (parameters : List String) (key val : String) : List String :=
  parameters ++ [key ++ "=" ++ val]

def createDataSourceName (p : Postgres) : String :=
  let parameters := addParam [] "connect_timeout" (toString p.connectionTimeout)
  let host := p.hostPort.1
  let port := p.hostPort.2
  let parameters := if host ≠ "" then addParam parameters "host" (dataSourceStr host) else parameters
  let parameters := if port ≠ "" then addParam parameters "port" port else parameters
  let parameters := if p.user ≠ "" then addParam parameters "user" (dataSourceStr p.user) else parameters
  let parameters :=
    if p.password ≠ "" then addParam parameters "password" (dataSourceStr p.password) else parameters
  let parameters :=
    if p.database ≠ "" then addParam parameters "dbname" (dataSourceStr p.database) else parameters
  let parameters :=
    if p.ssl.mode = "" then addParam parameters "sslmode" (dataSourceStr sslVerifyFull)
    else addParam parameters "sslmode" (dataSourceStr p.ssl.mode)
  let parameters :=
    if p.ssl.caFile ≠ "" then addParam parameters "sslrootcert" (dataSourceStr p.ssl.caFile) else parameters
  let parameters :=
    if p.ssl.certFile ≠ "" then addParam parameters "sslcert" (dataSourceStr p.ssl.certFile) else parameters
  let parameters :=
    if p.ssl.keyFile ≠ "" then addParam parameters "sslkey" (dataSourceStr p.ssl.keyFile) else parameters
  " ".intercalate parameters

/-! ## What the configuration says -/

/-- The SSL mode, the strictest one if none is given. -/
def Postgres.sslMode (p : Postgres) : String := if p.ssl.mode = "" then sslVerifyFull else p.ssl.mode

/-- The parameters of a configuration; an empty string is one that is not set. -/
def Postgres.values (p : Postgres) : List (String × String) :=
  [("connect_timeout", toString p.connectionTimeout), ("host", p.hostPort.1), ("port", p.hostPort.2),
    ("user", p.user), ("password", p.password), ("dbname", p.database), ("sslmode", p.sslMode),
    ("sslrootcert", p.ssl.caFile), ("sslcert", p.ssl.certFile), ("sslkey", p.ssl.keyFile)]

def Postgres.configured (p : Postgres) : List (String × String) := p.values.filter (·.2 ≠ "")

/-- The name is read as the configuration: every parameter that is set has its one
value, and there is no other parameter. -/
def MeansConfigured (sp : Spaces) (p : Postgres) : Prop :=
  ∃ l, parse sp (createDataSourceName p).toList = some l ∧
    l.Perm (p.configured.map fun kv => (kv.1.toList, kv.2.toList))

/-! ## The parameters as they are written -/

/-- The timeout and the port stand without quotes. -/
def bare (key : String) : Bool := key = "connect_timeout" || key = "port"

def write (kv : String × String) : Param :=
  ⟨kv.1.toList, kv.2.toList, if bare kv.1 then kv.2.toList else quote kv.2.toList⟩

theorem write_key (key val : String) : (write (key, val)).key = key.toList := rfl

def set (l : List (String × String)) : List (String × String) := l.filter (·.2 ≠ "")

def written (l : List (String × String)) : List String := l.map fun kv => String.ofList (write kv).render

theorem written_append (l : List (String × String)) {key val text}
    (htext : (write (key, val)).text = text.toList) :
    (if val ≠ "" then addParam (written l) key text else written l) = written (l ++ set [(key, val)]) := by
  by_cases hval : val = ""
  · simp [set, hval]
  · have hrender : String.ofList (write (key, val)).render = key ++ "=" ++ text := by
      apply String.toList_inj.mp
      rw [Param.render, htext]
      simp [write]
    simp [set, addParam, written, hval, hrender]

theorem written_append_bare (l : List (String × String)) {key} (val : String) (hkey : bare key = true) :
    (if val ≠ "" then addParam (written l) key val else written l) = written (l ++ set [(key, val)]) :=
  written_append l (by simp [write, hkey])

theorem written_append_quoted (l : List (String × String)) {key} (val : String) (hkey : bare key = false) :
    (if val ≠ "" then addParam (written l) key (dataSourceStr val) else written l) =
      written (l ++ set [(key, val)]) :=
  written_append l (by simp [write, dataSourceStr, hkey])

theorem toString_int_ne (n : Int) : toString n ≠ "" := by
  intro h
  have hlist := congrArg String.toList h
  rw [Int.toString_eq_repr, Int.repr_eq_if] at hlist
  split_ifs at hlist <;> simp [Nat.toDigits_ne_nil] at hlist

theorem Postgres.sslMode_ne (p : Postgres) : p.sslMode ≠ "" := by
  rw [sslMode]
  split_ifs with h
  · decide
  · exact h

theorem createDataSourceName_eq (p : Postgres) : createDataSourceName p = " ".intercalate (written p.configured) := by
  have htimeout : addParam [] "connect_timeout" (toString p.connectionTimeout) =
      written (set [("connect_timeout", toString p.connectionTimeout)]) := by
    exact (if_pos (toString_int_ne _)).symm.trans (written_append_bare [] _ rfl)
  have hmode : ∀ l : List (String × String),
      (if p.ssl.mode = "" then addParam (written l) "sslmode" (dataSourceStr sslVerifyFull)
        else addParam (written l) "sslmode" (dataSourceStr p.ssl.mode)) = written (l ++ set [("sslmode", p.sslMode)]) := by
    intro l
    rw [← written_append_quoted l _ rfl, if_pos p.sslMode_ne, Postgres.sslMode]
    split_ifs <;> rfl
  unfold createDataSourceName
  rw [htimeout]
  dsimp only
  rw [written_append_quoted _ _ (rfl : bare "host" = false), written_append_bare _ _ (rfl : bare "port" = true),
    written_append_quoted _ _ (rfl : bare "user" = false), written_append_quoted _ _ (rfl : bare "password" = false),
    written_append_quoted _ _ (rfl : bare "dbname" = false), hmode,
    written_append_quoted _ _ (rfl : bare "sslrootcert" = false),
    written_append_quoted _ _ (rfl : bare "sslcert" = false), written_append_quoted _ _ (rfl : bare "sslkey" = false)]
  simp only [set, ← filter_append]
  rfl

theorem toList_createDataSourceName (p : Postgres) :
    (createDataSourceName p).toList = join (p.configured.map write) := by
  rw [createDataSourceName_eq, String.toList_intercalate, ← intercalate_render]
  simp [written, Function.comp_def]

/-! ## Reading the name -/

variable {sp : Spaces}

theorem solid_of_digit {c} (h : c.isDigit = true) : sp.isSpace c = false ∧ c ≠ '\\' := by
  have hrange : 48 ≤ c.toNat ∧ c.toNat ≤ 57 := by
    simpa [Char.isDigit, UInt32.le_iff_toNat_le] using h
  refine ⟨sp.visible c (by omega) (by omega), ?_⟩
  rintro rfl
  exact absurd hrange (by decide)

theorem plain_digits (n : Nat) : Plain sp (Nat.toDigits 10 n) := by
  have hdigit : ∀ c ∈ Nat.toDigits 10 n, c.isDigit = true := fun c hc =>
    Nat.isDigit_of_mem_toDigits (by decide) (by decide) hc
  constructor
  · intro c hc
    exact solid_of_digit (hdigit c hc)
  · intro h
    exact absurd (hdigit _ (mem_of_mem_head? h)) (by decide)

theorem plain_int (n : Int) : Plain sp (toString n).toList := by
  rw [Int.toString_eq_repr, Int.repr_eq_if]
  split_ifs with h
  · rw [Nat.toList_repr]
    exact plain_digits _
  · rw [String.toList_append, Nat.toList_repr]
    constructor
    · intro c hc
      rcases mem_append.mp hc with hc | hc
      · obtain rfl : c = '-' := by simpa using hc
        exact ⟨sp.visible _ (by decide) (by decide), by decide⟩
      · exact (plain_digits _).chars c hc
    · simp

theorem keyword_of_values {p : Postgres} {kv} (h : kv ∈ p.values) : Keyword kv.1.toList := by
  have hkeys : ∀ k ∈ ["connect_timeout", "host", "port", "user", "password", "dbname", "sslmode", "sslrootcert",
      "sslcert", "sslkey"], Keyword k.toList := by decide
  exact hkeys kv.1 (mem_map_of_mem h)

theorem eq_port_of_values {p : Postgres} {val} (h : ("port", val) ∈ p.values) : val = p.hostPort.2 := by
  simpa [Postgres.values] using h

/-- Every parameter but the port is written in a way that keeps its value. -/
theorem good_write {p : Postgres} {kv} (h : kv ∈ p.configured)
    (hport : kv.1 = "port" → Plain sp kv.2.toList) : (write kv).Good sp := by
  obtain ⟨hmem, hset⟩ := mem_filter.mp h
  have hne : kv.2.toList ≠ [] := by simpa using hset
  refine ⟨keyword_of_values hmem, ?_⟩
  cases hbare : bare kv.1 with
  | false => exact .inl (if_neg (by simp [hbare]))
  | true =>
    refine .inr ⟨if_pos hbare, ?_, hne⟩
    rcases (by simpa [bare] using hbare : kv.1 = "connect_timeout" ∨ kv.1 = "port") with hkey | hkey
    · obtain ⟨key, val⟩ := kv
      obtain rfl : key = "connect_timeout" := hkey
      obtain rfl : val = toString p.connectionTimeout := by simpa [Postgres.values] using hmem
      exact plain_int _
    · exact hport hkey

theorem configured_split {p : Postgres} (hport : p.hostPort.2 ≠ "") :
    p.configured = set (p.values.take 2) ++ ("port", p.hostPort.2) :: set (p.values.drop 3) := by
  have hvalues : p.values = p.values.take 2 ++ ("port", p.hostPort.2) :: p.values.drop 3 := rfl
  rw [Postgres.configured, hvalues, filter_append, filter_cons_of_pos (by simp [hport])]
  rfl

theorem set_drop_ne_nil (p : Postgres) : set (p.values.drop 3) ≠ [] := by
  have hmode : ("sslmode", p.sslMode) ∈ p.values.drop 3 := by simp [Postgres.values]
  exact ne_nil_of_mem (mem_filter.mpr ⟨hmode, by simp [p.sslMode_ne]⟩)

/-- The configuration is what the name says exactly if the port, which is not quoted,
needs no quotes. -/
theorem meansConfigured_iff (sp : Spaces) (p : Postgres) :
    MeansConfigured sp p ↔ Plain sp p.hostPort.2.toList := by
  constructor
  · rintro ⟨l, hparse, hperm⟩
    by_cases hport : p.hostPort.2 = ""
    · exact ⟨by simp [hport], by simp [hport]⟩
    obtain ⟨kv, rest, hrest⟩ := exists_cons_of_ne_nil (set_drop_ne_nil p)
    have hkv : kv ∈ p.values := by
      have hmem : kv ∈ set (p.values.drop 3) := by simp [hrest]
      exact mem_of_mem_drop (mem_filter.mp hmem).1
    rw [toList_createDataSourceName, configured_split hport, hrest, map_append] at hparse
    have hportKey : Keyword (write ("port", p.hostPort.2)).key := by
      rw [write_key]
      decide
    refine plain_of_parse ?_ hportKey rfl (keyword_of_values hkv) hparse ?_
    · intro q hq
      obtain ⟨kv', hkv', rfl⟩ := mem_map.mp hq
      refine good_write (p := p) ?_ ?_
      · rw [configured_split hport]
        exact mem_append_left _ hkv'
      · intro hkey
        have hfront : kv'.1 ∈ ["connect_timeout", "host"] := mem_map_of_mem (mem_filter.mp hkv').1
        exact absurd (hkey ▸ hfront) (by decide)
    · intro v hv
      obtain ⟨⟨key, val⟩, hmem, heq⟩ := mem_map.mp (hperm.mem_iff.mp hv)
      obtain ⟨hkey, rfl⟩ := Prod.mk.inj heq
      rw [write_key] at hkey
      obtain rfl : key = "port" := String.toList_inj.mp hkey
      rw [eq_port_of_values (mem_filter.mp hmem).1]
      rfl
  · intro hplain
    refine ⟨_, ?_, .refl _⟩
    have hgood : ∀ q ∈ p.configured.map write, q.Good sp := by
      intro q hq
      obtain ⟨⟨key, val⟩, hmem, rfl⟩ := mem_map.mp hq
      refine good_write hmem ?_
      rintro rfl
      rwa [eq_port_of_values (mem_filter.mp hmem).1]
    rw [toList_createDataSourceName, parse_join hgood, map_map]
    rfl

theorem isSpace_visible (c : Char) (hlow : 33 ≤ c.toNat) (hhigh : c.toNat < 127) : Dex.isSpace c = false := by
  have hlisted : c.toNat ∉ [0x09, 0x0A, 0x0B, 0x0C, 0x0D, 0x20, 0x85, 0xA0, 0x1680, 0x2028, 0x2029, 0x202F,
      0x205F, 0x3000] := by
    simp only [mem_cons, not_mem_nil, or_false]
    omega
  have hrange : ¬ 0x2000 ≤ c.toNat := by omega
  simp [Dex.isSpace, hlisted, hrange]

def unicodeSpaces : Spaces := ⟨Dex.isSpace, rfl, isSpace_visible⟩

def injected : Postgres := { host := "db:5432 dbname=other" }

/-- A port with a blank adds a parameter. -/
theorem injected_dbname : parse unicodeSpaces (createDataSourceName injected).toList =
        some [("connect_timeout".toList, "0".toList), ("host".toList, "db".toList), ("port".toList, "5432".toList),
          ("dbname".toList, "other".toList), ("sslmode".toList, "verify-full".toList)] ∧
      ¬ MeansConfigured unicodeSpaces injected := by
  have hparse : parse unicodeSpaces (createDataSourceName injected).toList =
      some [("connect_timeout".toList, "0".toList), ("host".toList, "db".toList), ("port".toList, "5432".toList),
        ("dbname".toList, "other".toList), ("sslmode".toList, "verify-full".toList)] := by decide +kernel
  refine ⟨hparse, ?_⟩
  rintro ⟨l, hl, hperm⟩
  cases hparse.symm.trans hl
  exact absurd hperm.length_eq (by decide +kernel)

end KubeYamls.Store.Sql
