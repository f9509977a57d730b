import Mathlib.Data.List.Basic

/-! The parameters that a connection is opened with, and the value that each of guacd's argument names is answered
with. A name that is not known gets an empty value. -/

namespace Persea.Guacd

structure SshParams where
  hostname : String
  port : Nat
  username : String
  password : Option String
  privateKey : Option String
  (width height dpi : Nat)
  (enableSftp sftpDisableDownload sftpDisableUpload disableCopy disablePaste : Bool)
  scrollback : Nat
  typescriptPath : Option String
  typescriptName : Option String
  createTypescriptPath : Bool
  command : Option String

structure VncParams where
  hostname : String
  port : Nat
  password : Option String
  colorDepth : Option Nat
  (width height dpi : Nat)
  disableCopy : Bool
  disablePaste : Bool

structure SpiceParams where
  hostname : String
  port : Nat
  password : Option String
  username : Option String
  tls : Bool
  tlsPort : Option Nat
  caCert : Option String
  certSubject : Option String
  ignoreCert : Bool
  proxy : Option String
  colorDepth : Option Nat
  (width height dpi : Nat)
  (disableCopy disablePaste enableAudio : Bool)
  secondaryMonitors : Nat

structure RdpParams where
  hostname : String
  port : Nat
  username : String
  (password domain security : Option String)
  (width height dpi : Nat)
  ignoreCert : Bool
  enableDrive : Bool
  drivePath : Option String
  driveName : String
  disableDownload : Bool
  disableUpload : Bool
  (authPkg kdcUrl kerberosCache remoteApp remoteAppDir remoteAppArgs : Option String)
  disableCopy : Bool
  disablePaste : Bool
  enableGfx : Bool
  (enableDesktopComposition enableWallpaper enableTheming enableFullWindowDrag forceLossless enableH264 : Bool)
  secondaryMonitors : Nat
  clientName : Option String

inductive ConnectionParams where
  | ssh (p : SshParams)
  | vnc (p : VncParams)
  | rdp (p : RdpParams)
  | spice (p : SpiceParams)

def flag (b : Bool) : String := if b then "true" else "false"

def orEmpty (s : Option String) : String := s.getD ""

def SshParams.argValue (p : SshParams) : String → String
  | "hostname" => p.hostname
  | "port" => toString p.port
  | "username" => p.username
  | "password" => orEmpty p.password
  | "private-key" => orEmpty p.privateKey
  | "width" => toString p.width
  | "height" => toString p.height
  | "dpi" => toString p.dpi
  | "color-scheme" => "gray-black"
  | "font-size" => "12"
  | "font-name" => "monospace"
  | "terminal-type" => "xterm-256color"
  | "scrollback" => toString p.scrollback
  | "backspace" => "127"
  | "enable-sftp" => flag p.enableSftp
  | "sftp-disable-download" => flag p.sftpDisableDownload
  | "sftp-disable-upload" => flag p.sftpDisableUpload
  | "disable-copy" => flag p.disableCopy
  | "disable-paste" => flag p.disablePaste
  | "read-only" => "false"
  | "locale" => "en_US.UTF-8"
  | "server-alive-interval" => "0"
  | "command" => orEmpty p.command
  | "typescript-path" => orEmpty p.typescriptPath
  | "typescript-name" => orEmpty p.typescriptName
  | "create-typescript-path" => flag p.createTypescriptPath
  | _ => ""

def VncParams.argValue (p : VncParams) : String → String
  | "hostname" => p.hostname
  | "port" => toString p.port
  | "width" => toString p.width
  | "height" => toString p.height
  | "dpi" => toString p.dpi
  | "password" => orEmpty p.password
  | "color-depth" => p.colorDepth.elim "24" toString
  | "cursor" => "local"
  | "read-only" => "false"
  | "swap-red-blue" => "false"
  | "dest-host" => ""
  | "dest-port" => ""
  | "enable-audio" => "false"
  | "disable-copy" => flag p.disableCopy
  | "disable-paste" => flag p.disablePaste
  | _ => ""

def RdpParams.argValue (p : RdpParams) : String → String
  | "hostname" => p.hostname
  | "port" => toString p.port
  | "username" => p.username
  | "password" => orEmpty p.password
  | "domain" => orEmpty p.domain
  | "client-name" => orEmpty p.clientName
  | "security" => p.security.getD "any"
  | "width" => toString p.width
  | "height" => toString p.height
  | "dpi" => toString p.dpi
  | "color-depth" => "32"
  | "ignore-cert" => flag p.ignoreCert
  | "disable-auth" => "false"
  | "cursor" => "local"
  | "enable-wallpaper" => flag p.enableWallpaper
  | "enable-theming" => flag p.enableTheming
  | "enable-font-smoothing" => "true"
  | "enable-full-window-drag" => flag p.enableFullWindowDrag
  | "enable-desktop-composition" => flag p.enableDesktopComposition
  | "enable-menu-animations" => "false"
  | "disable-bitmap-caching" => "false"
  | "disable-offscreen-caching" => "false"
  | "resize-method" => "display-update"
  | "secondary-monitors" => toString p.secondaryMonitors
  | "read-only" => "false"
  | "gateway-hostname" => ""
  | "gateway-port" => ""
  | "gateway-domain" => ""
  | "gateway-username" => ""
  | "gateway-password" => ""
  | "disable-copy" => flag p.disableCopy
  | "disable-paste" => flag p.disablePaste
  | "console" => "false"
  | "server-layout" => ""
  | "timezone" => ""
  | "disable-audio" => "false"
  | "enable-audio-input" => "false"
  | "enable-printing" => "false"
  | "enable-drive" => flag p.enableDrive
  | "drive-path" => orEmpty p.drivePath
  | "create-drive-path" => flag p.enableDrive
  | "drive-name" => p.driveName
  | "disable-download" => flag p.disableDownload
  | "disable-upload" => flag p.disableUpload
  | "auth-pkg" => orEmpty p.authPkg
  | "kdc-url" => orEmpty p.kdcUrl
  | "kerberos-cache" => orEmpty p.kerberosCache
  | "disable-gfx" => flag !p.enableGfx
  | "force-lossless" => flag p.forceLossless
  | "enable-h264" => flag p.enableH264
  | "remote-app" => orEmpty p.remoteApp
  | "remote-app-dir" => orEmpty p.remoteAppDir
  | "remote-app-args" => orEmpty p.remoteAppArgs
  | _ => ""

/-- With TLS the plain port is left empty, so that guacd goes to the TLS port. -/
def SpiceParams.argValue (p : SpiceParams) : String → String
  | "hostname" => p.hostname
  | "port" => if p.tls then "" else toString p.port
  | "username" => orEmpty p.username
  | "password" => orEmpty p.password
  | "tls" => flag p.tls
  | "tls-port" => p.tlsPort.elim "" toString
  | "ca-cert" => orEmpty p.caCert
  | "cert-subject" => orEmpty p.certSubject
  | "ignore-cert" => flag p.ignoreCert
  | "proxy" => orEmpty p.proxy
  | "color-depth" => p.colorDepth.elim "24" toString
  | "read-only" => "false"
  | "swap-red-blue" => "false"
  | "enable-audio" => flag p.enableAudio
  | "disable-copy" => flag p.disableCopy
  | "disable-paste" => flag p.disablePaste
  | "secondary-monitors" => toString p.secondaryMonitors
  | _ => ""

namespace ConnectionParams

def protocol : ConnectionParams → String
  | .ssh _ => "ssh"
  | .vnc _ => "vnc"
  | .rdp _ => "rdp"
  | .spice _ => "spice"

def argValue : ConnectionParams → String → String
  | .ssh p => p.argValue
  | .vnc p => p.argValue
  | .rdp p => p.argValue
  | .spice p => p.argValue

def size : ConnectionParams → Nat × Nat × Nat
  | .ssh p => (p.width, p.height, p.dpi)
  | .vnc p => (p.width, p.height, p.dpi)
  | .rdp p => (p.width, p.height, p.dpi)
  | .spice p => (p.width, p.height, p.dpi)

def h264 : ConnectionParams → Bool
  | .rdp p => p.enableH264
  | .ssh _ | .vnc _ | .spice _ => false

end ConnectionParams

end Persea.Guacd
