import PeerShare.Config.Load

/-!
The settings of a peer.
-/

namespace PeerShare

inductive OverflowPolicy
  | queue
  | reject
  deriving DecidableEq, Repr

def OverflowPolicy.name : OverflowPolicy → String
  | .queue => "queue"
  | .reject => "reject"

def OverflowPolicy.ofName? (name : String) : Option OverflowPolicy :=
  [OverflowPolicy.queue, .reject].find? (·.name == name)

structure PeerConfig where
  registry : String := "127.0.0.1:7070"
  shareDir : Option FilePath := none
  downloadDir : Option FilePath := none
  /-- Where the peer listens for transfers; port 0 is any free port. -/
  transferListen : String := "0.0.0.0:0"
  advertiseAddress : String := "127.0.0.1"
  heartbeatFloorSecs : UInt64 := 10
  rpcTimeoutSecs : UInt64 := 5
  connectTimeoutSecs : UInt64 := 5
  requestTimeoutSecs : UInt64 := 10
  maxConnections : UInt64 := 8
  overflow : OverflowPolicy := .queue
  deriving DecidableEq, Repr

namespace PeerConfig

open Config

def names : List String :=
  ["registry", "share_dir", "download_dir", "transfer_listen", "advertise_address",
    "heartbeat_floor_secs", "rpc_timeout_secs", "connect_timeout_secs", "request_timeout_secs",
    "max_connections", "overflow"]

def read (text : List Char) : Option PeerConfig := do
  let standard : PeerConfig := {}
  let s ← settings names text
  return {
    registry := ← textSetting s "registry" standard.registry
    shareDir := ← pathSetting s "share_dir"
    downloadDir := ← pathSetting s "download_dir"
    transferListen := ← textSetting s "transfer_listen" standard.transferListen
    advertiseAddress := ← textSetting s "advertise_address" standard.advertiseAddress
    heartbeatFloorSecs := ← numberSetting s "heartbeat_floor_secs" standard.heartbeatFloorSecs
    rpcTimeoutSecs := ← numberSetting s "rpc_timeout_secs" standard.rpcTimeoutSecs
    connectTimeoutSecs := ← numberSetting s "connect_timeout_secs" standard.connectTimeoutSecs
    requestTimeoutSecs := ← numberSetting s "request_timeout_secs" standard.requestTimeoutSecs
    maxConnections := ← numberSetting s "max_connections" standard.maxConnections
    overflow :=
      ← setting s "overflow" (fun n => n.name?.bind OverflowPolicy.ofName?) standard.overflow }

def loadAt (home : FilePath) (d : Disk) : Except ConfigError PeerConfig :=
  load read {} (Home.peerConfig home) d

def heartbeatFloor (c : PeerConfig) : Span := period c.heartbeatFloorSecs
def rpcTimeout (c : PeerConfig) : Span := period c.rpcTimeoutSecs
def connectTimeout (c : PeerConfig) : Span := period c.connectTimeoutSecs
def requestTimeout (c : PeerConfig) : Span := period c.requestTimeoutSecs

def shareDirAt (c : PeerConfig) (home : FilePath) : FilePath := c.shareDir.getD (Home.share home)

def downloadDirAt (c : PeerConfig) (home : FilePath) : FilePath :=
  c.downloadDir.getD (Home.downloads home)

def toJson (c : PeerConfig) : Json :=
  .obj [("registry", .str c.registry), ("share_dir", pathJson c.shareDir),
    ("download_dir", pathJson c.downloadDir), ("transfer_listen", .str c.transferListen),
    ("advertise_address", .str c.advertiseAddress),
    ("heartbeat_floor_secs", .nat c.heartbeatFloorSecs),
    ("rpc_timeout_secs", .nat c.rpcTimeoutSecs),
    ("connect_timeout_secs", .nat c.connectTimeoutSecs),
    ("request_timeout_secs", .nat c.requestTimeoutSecs),
    ("max_connections", .nat c.maxConnections), ("overflow", .str c.overflow.name)]

end PeerConfig

end PeerShare
