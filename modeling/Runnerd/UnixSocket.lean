import Runnerd.Basic
import Runnerd.Library.Interaction

/-!
# The listening socket

`unix_socket.cpp`, and what `main` does with the path of its socket when the daemon ends. Other
processes can act between any two system calls, so the functions are programs that make these calls
one by one.
-/

namespace Runnerd

namespace UnixSocket

def ENOENT : Errno := .other 2

def ECONNREFUSED : Errno := .other 111

def EADDRINUSE : Errno := .other 98

def EINVAL : Errno := .other 22

/-- What `lstat` says about a file. -/
structure FileStat where
  isSocket : Bool
  uid : ℕ
  deriving DecidableEq

/-- The system calls about the socket and its path. `serve` stands for all that `main` does between
`createUnixListener` and the exception that ends it. -/
inductive Call where
  | lstat
  | socket
  | connect (fd : Fd)
  | unlink
  | bind (fd : Fd)
  | chmod
  | listen (fd : Fd)
  | close (fd : Fd)
  | serve
  deriving DecidableEq

def Call.Answer : Call → Type
  | .lstat => Except Errno FileStat
  | .socket => Except Errno Fd
  | .connect _ | .unlink | .bind _ | .chmod | .listen _ => Except Errno Unit
  | .close _ | .serve => Unit

/-- A program that throws `std::runtime_error`. -/
abbrev Program := Interaction Call Call.Answer Bytes

def lstat : Program (Except Errno FileStat) := .call .lstat .done

def socket : Program (Except Errno Fd) := .call .socket .done

def connect (fd : Fd) : Program (Except Errno Unit) := .call (.connect fd) .done

def unlink : Program (Except Errno Unit) := .call .unlink .done

def bind (fd : Fd) : Program (Except Errno Unit) := .call (.bind fd) .done

def chmod : Program (Except Errno Unit) := .call .chmod .done

def listen (fd : Fd) : Program (Except Errno Unit) := .call (.listen fd) .done

def close (fd : Fd) : Program Unit := .call (.close fd) .done

def serve : Program Unit := .call .serve .done

variable (strerror : ℤ → Bytes) (euid : ℕ) (socketPath : Bytes)

def makeSystemError (action : Bytes) (errorCode : Errno) : Bytes :=
  action ++ text ": " ++ strerror errorCode.number

/-- `sizeof(sockaddr_un::sun_path)`. -/
def sunPathSize : ℕ := 108

def makeUnixAddress : Program Unit :=
  if socketPath = [] then throw (text "Unix socket path is empty")
  else if socketPath.length ≥ sunPathSize then
    throw (text "Unix socket path is too long: " ++ socketPath)
  else return ()

def removeStaleSocketIfNeeded : Program Unit := do
  match ← lstat with
  | .error e =>
    if e = ENOENT then return ()
    else throw (makeSystemError strerror (text "lstat existing Unix socket") e)
  | .ok fileStat =>
    if fileStat.isSocket = false then
      throw (text "Path already exists and is not a Unix socket: " ++ socketPath)
    else if fileStat.uid ≠ euid then
      throw (text "Existing Unix socket is not owned by current user: " ++ socketPath)
    else
      match ← socket with
      | .error e => throw (makeSystemError strerror (text "create probe Unix socket") e)
      | .ok probeFd => do
        makeUnixAddress socketPath
        match ← connect probeFd with
        | .ok _ => do
          close probeFd
          throw (text "runnerd is already running: " ++ socketPath)
        | .error connectError => do
          close probeFd
          if connectError = ECONNREFUSED ∨ connectError = ENOENT then
            match ← unlink with
            | .error e =>
              if e ≠ ENOENT then
                throw (makeSystemError strerror (text "remove stale Unix socket") e)
              else return ()
            | .ok _ => return ()
          else throw (makeSystemError strerror (text "check existing Unix socket") connectError)

def createUnixListener : Program Fd := do
  removeStaleSocketIfNeeded strerror euid socketPath
  makeUnixAddress socketPath
  match ← socket with
  | .error e => throw (makeSystemError strerror (text "create listener Unix socket") e)
  | .ok listenFd => do
    match ← bind listenFd with
    | .error savedErrno => do
      close listenFd
      throw (makeSystemError strerror (text "bind Unix socket") savedErrno)
    | .ok _ => do
      match ← chmod with
      | .error savedErrno => do
        close listenFd
        let _ ← unlink
        throw (makeSystemError strerror (text "chmod Unix socket") savedErrno)
      | .ok _ => do
        match ← listen listenFd with
        | .error savedErrno => do
          close listenFd
          let _ ← unlink
          throw (makeSystemError strerror (text "listen Unix socket") savedErrno)
        | .ok _ => return listenFd

def connectUnixSocket : Program Fd := do
  makeUnixAddress socketPath
  match ← socket with
  | .error e => throw (makeSystemError strerror (text "create client Unix socket") e)
  | .ok socketFd => do
    match ← connect socketFd with
    | .error savedErrno => do
      close socketFd
      throw (makeSystemError strerror (text "connect Unix socket") savedErrno)
    | .ok _ => return socketFd

/-- What `main` does with the path. It unlinks the path if it has created the socket. -/
def main : Program Unit := do
  let listenFd ← tryCatch (some <$> createUnixListener strerror euid socketPath) fun _ => return none
  match listenFd with
  | none => return ()
  | some listenFd => do
    serve
    close listenFd
    let _ ← unlink
    return ()

end UnixSocket

end Runnerd
