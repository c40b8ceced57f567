import PeerShare.Config.Load
import PeerShare.Listing

/-!
The settings of a registry server.
-/

namespace PeerShare

inductive StoreKind
  | snapshot
  | memory
  deriving DecidableEq, Repr

def StoreKind.name : StoreKind → String
  | .snapshot => "snapshot"
  | .memory => "memory"

def StoreKind.ofName? (name : String) : Option StoreKind :=
  [StoreKind.snapshot, .memory].find? (·.name == name)

structure ServerConfig where
  listen : String := "127.0.0.1:7070"
  store : StoreKind := .snapshot
  storePath : Option FilePath := none
  ttlSecs : UInt64 := 120
  graceSecs : UInt64 := 60
  reaperIntervalSecs : UInt64 := 120
  deriving DecidableEq, Repr

namespace ServerConfig

open Config

def names : List String :=
  ["listen", "store", "store_path", "ttl_secs", "grace_secs", "reaper_interval_secs"]

def read (text : List Char) : Option ServerConfig := do
  let standard : ServerConfig := {}
  let s ← settings names text
  return {
    listen := ← textSetting s "listen" standard.listen
    store := ← setting s "store" (fun n => n.name?.bind StoreKind.ofName?) standard.store
    storePath := ← pathSetting s "store_path"
    ttlSecs := ← numberSetting s "ttl_secs" standard.ttlSecs
    graceSecs := ← numberSetting s "grace_secs" standard.graceSecs
    reaperIntervalSecs := ← numberSetting s "reaper_interval_secs" standard.reaperIntervalSecs }

def loadAt (home : FilePath) (d : Disk) : Except ConfigError ServerConfig :=
  load read {} (Home.serverConfig home) d

def policy (c : ServerConfig) : Policy := ⟨Span.ofSeconds c.ttlSecs, Span.ofSeconds c.graceSecs⟩

def reaperInterval (c : ServerConfig) : Span := period c.reaperIntervalSecs

def storePathAt (c : ServerConfig) (home : FilePath) : FilePath :=
  c.storePath.getD (Home.store home)

def toJson (c : ServerConfig) : Json :=
  .obj [("listen", .str c.listen), ("store", .str c.store.name),
    ("store_path", pathJson c.storePath), ("ttl_secs", .nat c.ttlSecs),
    ("grace_secs", .nat c.graceSecs), ("reaper_interval_secs", .nat c.reaperIntervalSecs)]

end ServerConfig

end PeerShare
